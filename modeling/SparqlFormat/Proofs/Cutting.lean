import SparqlFormat.Proofs.LongestReading
import SparqlFormat.Proofs.Seams
import SparqlFormat.Proofs.Spellings

/-!
# The parsers of the library

The library finds the longest token at the head of a text with the reader that layouts use
(`terminal?_eq_some`). That reader gives the longest of all spellings there (`first_eq_ok`), but
two things hide shorter ones from it: an escape of a code point a string or an operator, and the
letters that a keyword runs into the keyword.

So the library cuts a text as the standard does (`cut_eq_some`), and its two parsers accept the
queries and updates (`Checker.grammar_decides`).
-/

namespace SparqlFormat.Grammar

open Computability Lexeme Terminals

/-! ## The longest token -/

section Longest

variable {t u : Token} {s v w text : List Char} {n m : Nat}

lemma longestWord_eq_some (found : longestWord w n = some (t, s)) :
    ofWord s = .ok t ∧ s <+: w := by
  induction n with
  | zero => cases found
  | succ n ih =>
    rw [longestWord] at found
    split at found
    · next t' read =>
      obtain ⟨rfl, rfl⟩ : t' = t ∧ w.take (n + 1) = s := by simpa using found
      exact ⟨read, List.take_prefix _ _⟩
    · exact ih found

lemma exists_longestWord (read : ofWord v = .ok t) (atHead : v <+: w) (nonempty : v ≠ [])
    (bound : v.length ≤ n) (within : n ≤ w.length) :
    ∃ t' s', longestWord w n = some (t', s') ∧ v.length ≤ s'.length := by
  induction n with
  | zero => exact absurd (List.length_eq_zero_iff.1 (Nat.le_zero.1 bound)) nonempty
  | succ n ih =>
    have length : (w.take (n + 1)).length = n + 1 := List.length_take_of_le within
    rw [longestWord]
    cases ht : ofWord (w.take (n + 1)) with
    | ok t' => exact ⟨t', _, rfl, by omega⟩
    | error f =>
      refine ih ?_ (by omega)
      by_contra longer
      have whole : v = w.take (n + 1) := by
        rw [List.prefix_iff_eq_take.1 atHead, show v.length = n + 1 by omega]
      rw [whole, ht] at read
      cases read

lemma isWord_of_prefix (isWord : word? text = some w) (within : s <+: w)
    (read : ofWord s = .ok t) : word? s = some s := by
  cases text with
  | nil => cases isWord
  | cons c cs =>
    simp only [word?, Option.ite_none_right_eq_some, Option.some.injEq] at isWord
    obtain ⟨letter, rfl⟩ := isWord
    cases s with
    | nil => cases read
    | cons d s =>
      obtain ⟨rfl, inside⟩ := List.cons_prefix_cons.1 within
      exact word?_eq_self.2 ⟨letter, fun e mem => of_mem_takeWhile (inside.subset mem)⟩

lemma exists_operator_below (k : List Char) : ∃ r, operator '<' k = .ok r := by
  by_cases equal : k.head? = some '='
  · exact ⟨ofMark .atMost, by simp [operator, operator?, equal]⟩
  · exact ⟨ofMark .below, by simp [operator, operator?]⟩

lemma exists_mark_of_operator {c : Char} {cs : List Char} {r : Reading}
    (read : operator c cs = .ok r) : ∃ m : Mark, r = ofMark m := by
  unfold operator at read
  split at read
  · next m _ => exact ⟨m, (Except.ok.inj read).symm⟩
  · cases read

/-- What is left of a token with an escape is a token without one. -/
lemma mem_of_withoutEscape (spelled : Spells true u v) (escaped : isEscaped u = true)
    (found : withoutEscape v = some (t, s)) : s ∈ spellings t ∧ s <+: v := by
  cases spelled with
  | @string quote _ isMark read =>
    obtain ⟨rest, rfl, -⟩ := @first_string true _ _ isMark read
    cases rest with
    | nil => simp [isEscaped, holdsCodePointEscape] at escaped
    | cons d rest =>
      have notBracket : quote ≠ '<' := by
        rintro rfl
        cases isMark
      simp only [withoutEscape, Option.ite_none_right_eq_some, Option.some.injEq, Prod.mk.injEq,
        beq_iff_eq] at found
      obtain ⟨rfl, rfl, rfl⟩ := found
      refine ⟨mem_of_spells (.string isMark ?_) rfl ?_, ⟨rest, rfl⟩⟩
      · simp [string?, longString?, shortString?_marks isMark]
      · simp [isEscaped, holdsCodePointEscape, ne_backslash_of_isQuote isMark]
  | @iri body read =>
    have found : (operator '<' (body ++ ['>'])).toOption = some (t, s) := found
    cases read' : operator '<' (body ++ ['>']) with
    | error f => rw [read'] at found; cases found
    | ok r =>
      obtain rfl : r = (t, s) := by simpa [read', Except.toOption] using found
      obtain ⟨spelled, atHead⟩ : IsSpelledAt true _ _ := operator_spelled read'
      obtain ⟨m, e⟩ := exists_mark_of_operator read'
      obtain rfl : t = .mark m := congrArg Prod.fst e
      exact ⟨mem_of_spells spelled rfl rfl, atHead⟩
  | word _ read => rcases ofWord_eq_ok read with ⟨rfl, -⟩ | ⟨-, rfl⟩ | ⟨rfl, -⟩ <;> cases escaped
  | _ => cases escaped

lemma mem_of_terminal? (found : terminal? text = some (t, s)) :
    s ∈ spellings t ∧ s <+: text := by
  unfold terminal? at found
  split at found
  · next u v read =>
    obtain ⟨spelled, atHead⟩ : IsSpelledAt true _ _ := spells_of_first read
    split at found
    · next escaped =>
      obtain ⟨member, within⟩ := mem_of_withoutEscape spelled escaped found
      exact ⟨member, within.trans atHead⟩
    · next plain =>
      obtain ⟨rfl, rfl⟩ : u = t ∧ v = s := by simpa using found
      obtain ⟨k, rfl⟩ := atHead
      exact ⟨mem_of_spells spelled (isComment_of_first read) (by simpa using plain), k, rfl⟩
  · obtain ⟨w, isWord, found⟩ := Option.bind_eq_some_iff.1 found
    obtain ⟨read, within⟩ := longestWord_eq_some found
    have isWord' : word? s = some s := isWord_of_prefix isWord within read
    refine ⟨mem_of_spells (.word isWord' read) ?_ ?_, within.trans (word?_isPrefix isWord)⟩ <;>
      rcases ofWord_eq_ok read with ⟨rfl, -⟩ | ⟨-, rfl⟩ | ⟨rfl, -⟩ <;> rfl

lemma string_of_head {quote : Char} {w : List Char} (isMark : isQuote quote = true)
    (member : quote :: w ∈ spellings u) : u = .string (quote :: w) := by
  obtain ⟨spelled, notComment, -⟩ := mem_spellings_iff.1 member
  have alone := first_of_spells spelled notComment (absorbs_nil u)
  rw [List.append_nil, first_quote true isMark, stringLiteral] at alone
  split at alone
  · obtain ⟨rfl, e⟩ := Prod.mk.inj (Except.ok.inj alone)
    rw [e]
  · cases alone

/-- In a string with an escape, the longest string without one is the empty one, if any. -/
lemma exists_withoutEscape_string {quote : Char} (isMark : isQuote quote = true)
    (read : string? quote s = some s) (escaped : holdsCodePointEscape s = true)
    (member : v ∈ spellings u) (atHead : v <+: s) :
    ∃ t' s', withoutEscape s = some (t', s') ∧ v.length ≤ s'.length := by
  obtain ⟨c, w, rfl, -⟩ := (mem_spellings_iff.1 member).1.head
  obtain ⟨rest, rfl, -⟩ := @first_string true _ _ isMark read
  obtain ⟨rfl, -⟩ := List.cons_prefix_cons.1 atHead
  obtain rfl := string_of_head isMark member
  obtain ⟨member, plain⟩ := isPlain_string.mem_iff.1 member.2
  have differ : c :: w ≠ c :: rest := by
    intro e
    rw [e, escaped] at plain
    cases plain
  obtain ⟨k, split⟩ := atHead
  rcases (mem_string_iff isMark rfl).1 member with short | long
  · have short := shortString?_complete isMark short k
    rw [split] at short
    cases hlong : longString? c (c :: rest) with
    | none =>
      rw [string?, hlong, Option.none_or, short] at read
      exact absurd (Option.some.inj read) differ
    | some long =>
      -- in front of three marks, the short string is the empty one
      obtain ⟨rest', body, three, -⟩ := longString?_eq_some.1 hlong
      rw [three, shortString?_marks isMark] at short
      have notBracket : c ≠ '<' := by
        rintro rfl
        cases isMark
      rw [three, ← Option.some.inj short]
      exact ⟨.string [c, c], [c, c], by simp [withoutEscape], le_rfl⟩
  · have long := longString?_complete isMark long k
    rw [split] at long
    rw [string?, long] at read
    exact absurd (Option.some.inj read) differ

/-- Behind an escape in an identifier, the longest token is an operator. -/
lemma exists_withoutEscape_iri {body : List Char} (read : iriBody? (body ++ ['>']) = some body)
    (escaped : holdsCodePointEscape body = true) (member : v ∈ spellings u)
    (atHead : v <+: '<' :: (body ++ ['>'])) :
    ∃ t' s', withoutEscape ('<' :: (body ++ ['>'])) = some (t', s') ∧ v.length ≤ s'.length := by
  obtain ⟨spelled, notComment, -⟩ := mem_spellings_iff.1 member
  obtain ⟨c, w, rfl, -⟩ := spelled.head
  obtain ⟨rfl, inside⟩ := List.cons_prefix_cons.1 atHead
  have alone := first_of_spells spelled notComment (absorbs_nil u)
  rw [List.append_nil, first_below, identifierOrOperator] at alone
  split at alone
  · next body' _ =>
    -- an identifier there is the one with the escape
    obtain ⟨rfl, e⟩ : .iri body' = u ∧ '<' :: (body' ++ ['>']) = '<' :: w := by simpa using alone
    obtain ⟨-, member⟩ := member
    have whole : '<' :: w = '<' :: (body ++ ['>']) :=
      prefixUnique_identifier _ _ (isPlain_identifier.mem_iff.1 member).1 _
        (mem_exactly_mul.2 ⟨_, ⟨body, iriBody?_mem read, _, rfl, rfl⟩, rfl⟩) atHead List.prefix_rfl
    rw [whole] at member
    rw [holdsCodePointEscape_of_mem member] at escaped
    cases escaped
  · cases w with
    | nil =>
      obtain ⟨r, found⟩ := exists_operator_below (body ++ ['>'])
      obtain ⟨c, rest, text, -⟩ := (@operator_spelled true _ _ _ found).1.head
      refine ⟨r.1, r.2, by simp [withoutEscape, found, Except.toOption], by simp [text]⟩
    | cons d w =>
      obtain ⟨k, split⟩ := inside
      refine ⟨u, '<' :: d :: w, ?_, le_rfl⟩
      rw [← split, withoutEscape]
      simpa [operator, Except.toOption] using congrArg Except.toOption alone

/-- A word that stands in front of letters that are no word is found among them. -/
lemma exists_terminal?_word (isWord : word? v = some v) (read : ofWord v = .ok u) {k : List Char}
    {f : Fault} (unknown : first true (v ++ k) = .error f) :
    ∃ t s, terminal? (v ++ k) = some (t, s) ∧ v.length ≤ s.length := by
  obtain ⟨⟨c, rest, rfl, letter⟩, -⟩ := word?_chars isWord
  have whole : word? (c :: rest ++ k) = some (c :: (rest ++ k).takeWhile isWordTail) := by
    simp [word?, letter]
  have atHead : c :: rest <+: c :: (rest ++ k).takeWhile isWordTail :=
    List.cons_prefix_cons.2
      ⟨rfl, prefix_takeWhile (word?_eq_self.1 isWord).2 (List.prefix_append rest k)⟩
  obtain ⟨t, s, found, longer⟩ :=
    exists_longestWord read atHead (List.cons_ne_nil _ _) atHead.length_le le_rfl
  exact ⟨t, s, by simpa only [terminal?, unknown, whole, Option.bind_some] using found, longer⟩

/-- Something is found that is at least as long as any token at the head of the text. -/
lemma exists_terminal? (member : v ∈ spellings u) (atHead : v <+: text) :
    ∃ t s, terminal? text = some (t, s) ∧ v.length ≤ s.length := by
  obtain ⟨spelled, notComment, plain⟩ := mem_spellings_iff.1 member
  obtain ⟨k, split⟩ := id atHead
  rcases spelled.first_append notComment k with
    ⟨t, s, read, longer⟩ | ⟨⟨f, unknown⟩, isVerbal, -⟩
  · rw [split] at read
    by_cases escaped : isEscaped t = true
    · have found : terminal? text = withoutEscape s := by simp [terminal?, read, escaped]
      rw [found]
      obtain ⟨spelled', within⟩ : IsSpelledAt true _ _ := spells_of_first read
      have inside : v <+: s := List.prefix_of_prefix_length_le atHead within longer
      dsimp only at spelled' within
      cases spelled' with
      | string isMark hs => exact exists_withoutEscape_string isMark hs escaped member inside
      | iri hbody => exact exists_withoutEscape_iri hbody escaped member inside
      | word _ ht => rcases ofWord_eq_ok ht with ⟨rfl, -⟩ | ⟨-, rfl⟩ | ⟨rfl, -⟩ <;> cases escaped
      | _ => cases escaped
    · exact ⟨t, s, by simp [terminal?, read, escaped], longer⟩
  · rw [← split]
    cases spelled with
    | word isWord ht => exact exists_terminal?_word isWord ht unknown
    | _ => cases isVerbal

/-- The longest token at the head of a text is the one that is found. -/
theorem terminal?_eq_some : terminal? text = some (t, s) ↔ IsTerminal text t s := by
  constructor
  · intro found
    obtain ⟨member, atHead⟩ := mem_of_terminal? found
    refine ⟨member, atHead, fun u v hv hprefix => ?_⟩
    obtain ⟨t', s', found', longer⟩ := exists_terminal? hv hprefix
    obtain ⟨rfl, rfl⟩ := Prod.mk.inj (Option.some.inj (found'.symm.trans found))
    exact longer
  · intro h
    obtain ⟨t', s', found, longer⟩ := exists_terminal? h.spelled h.atHead
    obtain ⟨member, atHead⟩ := mem_of_terminal? found
    obtain rfl : s = s' :=
      (List.prefix_of_prefix_length_le h.atHead atHead longer).eq_of_length_le
        (h.longest t' s' member atHead)
    obtain ⟨spelled, notComment, -⟩ := mem_spellings_iff.1 member
    obtain ⟨spelled', notComment', -⟩ := mem_spellings_iff.1 h.spelled
    rwa [spelled'.unique spelled notComment' notComment]

end Longest

/-! ## The tokens of a text -/

section Cut

variable {text rest s : List Char} {row : List Stretch} {t : Token}

lemma cutFrom_append (s rest : List Char) : cutFrom s.length (s ++ rest) = cutFrom 0 rest := by
  induction s with
  | nil => rfl
  | cons c s ih => simpa [cutFrom] using ih

lemma IsTerminal.head (h : IsTerminal text t s) :
    ∃ c cs, s = c :: cs ∧ isBlank c = false ∧ (c == '#') = false := by
  obtain ⟨spelled, notComment, -⟩ := mem_spellings_iff.1 h.spelled
  have read := first_of_spells (k := []) spelled notComment (absorbs_nil t)
  obtain ⟨c, cs, rfl, notBlank, notSign⟩ := first_source read
  exact ⟨c, cs, rfl, notBlank, by simpa using notSign⟩

lemma Cuts.cut_eq (h : Cuts text row) : cut text = some row := by
  induction h with
  | done => rfl
  | blank isBlank _ ih => rwa [cut, cutFrom, if_pos isBlank]
  | @comment body rest row noBreak ends _ ih =>
    have lineEnd : (rest.head?.any fun c => !isLineBreak c) = false := by
      cases rest <;> simp_all
    rw [cut, cutFrom, if_neg (by decide), if_pos (by decide), comment_append noBreak lineEnd]
    exact (cutFrom_append body rest).trans ih
  | @terminal s rest t row terminal _ ih =>
    obtain ⟨c, cs, rfl, notBlank, notSign⟩ := terminal.head
    have found := terminal?_eq_some.2 terminal
    have passed : cutFrom cs.length (cs ++ rest) = some row := (cutFrom_append cs rest).trans ih
    simp only [List.cons_append] at found ⊢
    simp [cut, cutFrom, notBlank, notSign, found, passed]

lemma cuts_of_cutFrom {skip : Nat} (h : cutFrom skip text = some row) :
    Cuts (text.drop skip) row := by
  induction text generalizing skip row with
  | nil =>
    rw [cutFrom] at h
    obtain rfl := Option.some.inj h
    rw [List.drop_nil]
    exact .done
  | cons c cs ih =>
    cases skip with
    | succ skip => exact ih h
    | zero =>
      rw [cutFrom] at h
      split_ifs at h with blank sign
      · exact .blank blank (ih h)
      · obtain ⟨body, rest, rfl, noBreak, ends⟩ := exists_comment cs
        rw [comment_append noBreak ends] at h
        have others : Cuts rest row := by simpa using ih h
        obtain rfl : c = '#' := beq_iff_eq.1 sign
        refine .comment noBreak (fun d mem => ?_) others
        simpa [Option.mem_def.1 mem] using ends
      · cases found : terminal? (c :: cs) with
        | none => simp [found] at h
        | some reading =>
          obtain ⟨t, s⟩ := reading
          simp only [found, Option.map_eq_some_iff] at h
          obtain ⟨others, later, rfl⟩ := h
          have terminal := terminal?_eq_some.1 found
          obtain ⟨d, ds, rfl, -⟩ := terminal.head
          obtain ⟨rest, split⟩ := terminal.atHead
          obtain ⟨rfl, rfl⟩ := List.cons.inj split
          have tail : Cuts rest others := by simpa using ih later
          have whole : Cuts (d :: ds ++ rest) (⟨t, rest⟩ :: others) := .terminal terminal tail
          simpa using whole

/-- The library cuts a text as the standard does. -/
theorem cut_eq_some : cut text = some row ↔ Cuts text row :=
  ⟨cuts_of_cutFrom, Cuts.cut_eq⟩

lemma bind_cut_eq_some : (expandCodePoints text).bind cut = some row ↔ CutsExpanded text row := by
  simp only [Option.bind_eq_some_iff, cut_eq_some, CutsExpanded]

/-- A text is cut in one way. -/
lemma CutsExpanded.unique {row' : List Stretch} (h : CutsExpanded text row)
    (h' : CutsExpanded text row') : row = row' :=
  Option.some.inj ((bind_cut_eq_some.2 h).symm.trans (bind_cut_eq_some.2 h'))

lemma CutsExpanded.exists_iff (h : CutsExpanded text row) {p : List Stretch → Prop} :
    (∃ row', CutsExpanded text row' ∧ p row') ↔ p row := by
  constructor
  · rintro ⟨row', h', holds⟩
    rwa [h.unique h']
  · intro holds
    exact ⟨row, h, holds⟩

/-- The texts of a form are those of the language. -/
theorem isForm_iff {form : Form} : isForm form text = true ↔ InLanguage form text := by
  simp only [isForm, Option.any_eq_true, bind_cut_eq_some, recognise_iff sparql_grounded,
    InLanguage]

end Cut

end SparqlFormat.Grammar

namespace SparqlFormat

/-- The two parsers of the library accept the queries and the updates of the standard. -/
theorem Checker.grammar_decides : Checker.grammar.Decides where
  query_iff text := by
    rw [← Grammar.isForm_iff]
    by_cases accepted : Grammar.isForm .query text = true <;> simp [Checker.grammar, accepted]
  update_iff text := by
    rw [← Grammar.isForm_iff]
    by_cases accepted : Grammar.isForm .update text = true <;> simp [Checker.grammar, accepted]

end SparqlFormat
