import SparqlFormat.Grammar.Check
import SparqlFormat.Layout.Basic
import SparqlFormat.Proofs.Reading

/-!
# Rows of tokens with gaps

A row of spellings with gaps between them is read back as the tokens it was made of, if the gaps
part what has to be parted. Two neighbours that stand side by side with no white space are
read as they were unless the left one absorbs the start of the right one. `adheres` holds of the
neighbours that the spacing rules ever set side by side, and of these only the few that
`merging` lists are absorbed.

Brackets with nothing between them are the one pair that white space does not part
(`hollow`); they are read as one token, and `reads_weave` says so through `closeEmptyBrackets`.
-/

namespace SparqlFormat

open Lexeme Layout Grammar

/-! ## Pairs of neighbours -/

/-- Whether two neighbours are an opening bracket and the closing one that goes with it. -/
def hollow (left right : Token) : Bool :=
  (left.isMark .openParen && right.isMark .closeParen) ||
    (left.isMark .openBracket && right.isMark .closeBracket)

/-- Whether two neighbours that the rules set side by side are read as something else: operators
that make a longer operator, a comparison that starts an identifier, and a sort direction in front
of anything but a parenthesis or a comment. -/
def merging (left right : Token) : Bool :=
  (left.isMark .bang && right.isMark .equal) || (left.isMark .caret && right.isMark .typed) ||
    (left.isMark .bar && (right.isMark .bar || right.isMark .either)) ||
    ((left.isMark .below || left.isMark .atMost) &&
      (right.isMark .closeParen || right.isLanguage)) ||
    (left.isWord sortWords &&
      !(right.isMark .openParen || right.isMark .emptyParens || right.isComment))

/-- Whether two neighbours may be set side by side, whatever is open around them. -/
def adheres (left right : Token) : Bool :=
  left.isMark .bang || (left.isWord callWords && right.isMark .openParen) ||
    touches ⟨0, 1⟩ left (some right)

/-- No pair of empty brackets is left open. -/
def HollowFree (ts : List Token) : Prop :=
  ts.IsChain fun left right => hollow left right = false

/-- No two neighbours merge. -/
def MergeFree (ts : List Token) : Prop :=
  ts.IsChain fun left right => merging left right = false

instance (ts : List Token) : Decidable (HollowFree ts) :=
  inferInstanceAs (Decidable (ts.IsChain _))

instance (ts : List Token) : Decidable (MergeFree ts) :=
  inferInstanceAs (Decidable (ts.IsChain _))

/-- What touches at any nesting touches where one parenthesis is open. -/
lemma touches_mono {n : Nesting} {left : Token} {next : Option Token}
    (h : touches n left next = true) : touches ⟨0, 1⟩ left next = true := by
  unfold touches at h ⊢
  grind

/-- The spacing rules leave no gap only between neighbours that adhere. -/
lemma adheres_of_spacing {n : Nesting} {left right : Token}
    (h : (spacing n left (some right)).after = .touch) : adheres left right = true := by
  -- the three rules that leave no gap are the three cases of `adheres`
  have ofTouches : touches n left (some right) = true → adheres left right = true := by
    intro h
    simp [adheres, touches_mono h]
  have ofBang : left.isMark .bang = true → adheres left right = true := by
    intro h
    simp [adheres, h]
  have ofCall : left.isWord callWords && isNextMark .openParen (some right) →
      adheres left right = true := by
    intro h
    simp only [isNextMark, Option.any_some] at h
    simp [adheres, h]
  revert h
  fun_cases spacing n left (some right) <;> intro h <;>
    first | exact ofBang ‹_› | exact ofCall ‹_› | exact ofTouches ‹_› | simp [Spacing.inline] at h

/-! ## What is not absorbed -/

section Parting

variable {pointFirst : Bool} {left right : Token} {s : List Char}

/-- The signs that a token starts with if something other than a mark adheres to it, and the
characters that a gap starts with. -/
def clingingSigns : List Char :=
  [' ', '\n', ')', '^', '@', '|', '(', '*', '+', '?', '/', '#']

/-- No token but marks and comments goes on with one of these characters. -/
lemma absorbs_clingingSign {c : Char} (sign : c ∈ clingingSigns) (k : List Char)
    (notMark : ∀ m, left ≠ .mark m) (notComment : left.isComment = false) :
    left.absorbs pointFirst (c :: k) = false := by
  have none : (clingingSigns.any fun d => isNumberChar d || isTagChar d || isVariableTail d ||
      isQuote d || isLocalChar d) = false := by
    decide
  have none := List.any_eq_false.1 none c sign
  simp only [Bool.or_eq_true, not_or, Bool.not_eq_true] at none
  obtain ⟨⟨⟨⟨notNumber, notTag⟩, notVar⟩, notQuote⟩, notLocal⟩ := none
  have notDotted : isDottedChar c = false ∧ (c == ':') = false := by
    simp only [isLocalChar, Bool.or_eq_false_iff] at notLocal
    exact ⟨notLocal.1.1.1, notLocal.1.1.2⟩
  cases left with
  | mark m => exact absurd rfl (notMark m)
  | comment body => simp [Token.isComment] at notComment
  | iri => rfl
  | _ => simp [Token.absorbs, *]

lemma Spells.head?_mark {m : Mark} (h : Spells pointFirst (.mark m) s) :
    s.head? = m.text.head? := by
  cases h with
  | mark => rfl
  | emptyParens => rfl
  | emptyBrackets => rfl
  | word hw ht => nomatch isVerbal_of_ofWord ht

lemma Spells.head?_language {tag : List Char} (h : Spells pointFirst (.language tag) s) :
    s.head? = some '@' := by
  cases h with
  | language => rfl
  | word hw ht => nomatch isVerbal_of_ofWord ht

lemma Spells.head?_comment {body : List Char} (h : Spells pointFirst (.comment body) s) :
    s.head? = some '#' := by
  cases h with
  | comment => rfl
  | word hw ht => nomatch isVerbal_of_ofWord ht

lemma head_of_adheres (together : adheres left right = true)
    (apart : merging left right = false) (notMark : ∀ m, left ≠ .mark m)
    (spelled : Spells pointFirst right s) : ∃ c rest, s = c :: rest ∧ c ∈ clingingSigns := by
  obtain ⟨c, rest, rfl, -⟩ := spelled.head
  refine ⟨c, rest, rfl, ?_⟩
  have ofMark : ∀ m, (m.text.head?.any fun c => clingingSigns.contains c) →
      right.isMark m = true → c ∈ clingingSigns := by
    intro m sign isMark
    obtain rfl := (Token.isMark_iff m right).1 isMark
    simpa [← spelled.head?_mark] using sign
  cases right with
  | language tag =>
    obtain rfl : c = '@' := by simpa using spelled.head?_language
    decide
  | comment body =>
    obtain rfl : c = '#' := by simpa using spelled.head?_comment
    decide
  | mark m =>
    by_cases sign : (m.text.head?.any fun c => clingingSigns.contains c) = true
    · exact ofMark m sign (by simp [Token.isMark])
    · cases m <;> simp [adheres, merging, touches, isPathModifier, isNextMark,
        Token.isMark, Token.isLanguage, Token.isComment, Mark.text, clingingSigns]
        at together apart sign
      all_goals simp [together] at apart
  | _ =>
    simp [adheres, merging, touches, isPathModifier, isNextMark, Token.isMark,
      Token.isLanguage, Token.isComment] at together apart
    simp [together] at apart

/-- What can be set side by side with a mark that no rule lets the next token touch. -/
lemma eq_of_adheres {m : Mark} (together : adheres (.mark m) right = true)
    (quiet : m ∈ [.above, .below, .atMost, .question, .plus, .minus, .dot]) :
    (m ∈ [.question, .plus] ∧ right = .mark .slash) ∨
      right ∈ [.mark .closeParen, .mark .typed, .mark .bar] ∨ ∃ tag, right = .language tag := by
  have isLanguage : right.isLanguage = true → ∃ tag, right = .language tag := by
    intro h
    cases right <;> simp_all [Token.isLanguage]
  simp only [List.mem_cons, List.not_mem_nil, or_false] at quiet
  rcases quiet with rfl | rfl | rfl | rfl | rfl | rfl | rfl <;>
    simp [adheres, touches, isPathModifier, isNextMark, Token.isMark, Token.isName, Token.isWord,
      isApplicable, ← Token.isMark_iff] at together ⊢ <;>
    grind

lemma quiet_absorbs_of_adheres {m : Mark} (together : adheres (.mark m) right = true)
    (quiet : m ∈ [.above, .below, .atMost, .question, .plus, .minus, .dot])
    (apart : merging (.mark m) right = false) (spelled : Spells pointFirst right s)
    (k : List Char) : m.absorbs pointFirst (s ++ k) = false := by
  have ofHead : ∀ c : Char, s.head? = some c →
      (∀ k, m.absorbs pointFirst (c :: k) = false) → m.absorbs pointFirst (s ++ k) = false := by
    intro c start absorbs
    cases s with
    | nil => simp at start
    | cons d rest =>
      obtain rfl : d = c := by simpa using start
      exact absorbs _
  simp only [List.mem_cons, List.not_mem_nil, or_false] at quiet
  rcases eq_of_adheres together (by simpa using quiet) with ⟨modifier, rfl⟩ | mem | ⟨tag, rfl⟩
  · refine ofHead '/' spelled.head?_mark fun k => ?_
    simp only [List.mem_cons, List.not_mem_nil, or_false] at modifier
    rcases modifier with rfl | rfl <;> rfl
  · simp only [List.mem_cons, List.not_mem_nil, or_false] at mem
    rcases mem with rfl | rfl | rfl <;> refine ofHead _ spelled.head?_mark fun k => ?_ <;>
      rcases quiet with rfl | rfl | rfl | rfl | rfl | rfl | rfl <;>
      first
        | rfl
        | simp [Mark.absorbs, startsWithDigit, isDigit]; done
        | simp [merging, Token.isMark] at apart
  · refine ofHead '@' spelled.head?_language fun k => ?_
    rcases quiet with rfl | rfl | rfl | rfl | rfl | rfl | rfl <;>
      first
        | rfl
        | simp [Mark.absorbs, startsWithDigit, isDigit]; done
        | simp [merging, Token.isMark, Token.isLanguage] at apart

/-- An opening bracket absorbs white space and its closing bracket, and nothing else. -/
lemma opening_absorbs {m : Mark} (opening : m = .openParen ∨ m = .openBracket)
    (full : hollow (.mark m) right = false) (spelled : Spells pointFirst right s)
    {blanks : List Char} (blank : ∀ c ∈ blanks, isBlank c = true) (k : List Char) :
    m.absorbs pointFirst (blanks ++ (s ++ k)) = false := by
  obtain ⟨c, rest, rfl, notBlank, known⟩ := spelled.head
  have skipped : (blanks ++ (c :: rest ++ k)).dropWhile isBlank = c :: rest ++ k :=
    dropWhile_append_stop blank (by simp [notBlank])
  have notClosing : (m = .openParen → c ≠ ')') ∧ (m = .openBracket → c ≠ ']') := by
    constructor
    · rintro rfl rfl
      obtain ⟨m, rfl, start⟩ := known (by simp)
      obtain rfl := (Mark.text_cons_of_head? start).2.2.2.1 rfl
      simp [hollow, Token.isMark] at full
    · rintro rfl rfl
      obtain ⟨m, rfl, start⟩ := known (by simp)
      obtain rfl := (Mark.text_cons_of_head? start).2.2.2.2.1 rfl
      simp [hollow, Token.isMark] at full
  rcases opening with rfl | rfl <;> simp only [Mark.absorbs, skipped] <;> simpa using notClosing

/-- A mark does not absorb what is set side by side with it, if the two do not merge and are no
brackets with nothing between them. -/
lemma mark_absorbs_of_adheres {m : Mark} (together : adheres (.mark m) right = true)
    (apart : merging (.mark m) right = false) (full : hollow (.mark m) right = false)
    (spelled : Spells pointFirst right s) (k : List Char) :
    m.absorbs pointFirst (s ++ k) = false := by
  obtain ⟨c, rest, rfl, notBlank, known⟩ := spelled.head
  cases m with
  | openParen => exact opening_absorbs (.inl rfl) full spelled (List.forall_mem_nil _) k
  | openBracket => exact opening_absorbs (.inr rfl) full spelled (List.forall_mem_nil _) k
  | bang =>
    have notEqual : c ≠ '=' := by
      rintro rfl
      obtain ⟨m, rfl, start⟩ := known (by simp)
      obtain rfl := (Mark.text_cons_of_head? start).1 rfl
      simp [merging, Token.isMark] at apart
    simpa [Mark.absorbs] using notEqual
  | caret =>
    have notCaret : c ≠ '^' := by
      rintro rfl
      obtain ⟨m, rfl, start⟩ := known (by simp)
      rcases (Mark.text_cons_of_head? start).2.1 rfl with rfl | rfl
      · revert together
        decide
      · simp [merging, Token.isMark] at apart
    simpa [Mark.absorbs] using notCaret
  | bar =>
    have notBar : c ≠ '|' := by
      rintro rfl
      obtain ⟨m, rfl, start⟩ := known (by simp)
      rcases (Mark.text_cons_of_head? start).2.2.1 rfl with rfl | rfl <;>
        simp [merging, Token.isMark] at apart
    simpa [Mark.absorbs] using notBar
  | above | below | atMost | question | plus | minus | dot =>
    exact quiet_absorbs_of_adheres together (by simp) apart spelled k
  | _ => rfl

/-! ## What a gap parts -/

/-- What stands between two neighbours leaves a comment alone on its line, and nothing stands
between them only if they adhere. -/
structure Parts (left right : Token) (g : Gap) : Prop where
  endsComment : left.isComment = true → ∃ level, g = .line level
  adheres : g = .touch → adheres left right = true

variable {indent : List Char}

lemma render_blank (blank : ∀ c ∈ indent, isBlank c = true) (g : Gap) :
    ∀ c ∈ g.render indent, isBlank c = true := by
  cases g with
  | touch => simp [Gap.render]
  | space => simp [Gap.render, isBlank]
  | line level =>
    intro c mem
    rcases List.mem_cons.1 mem with rfl | mem
    · rfl
    · obtain ⟨unit, hunit, inside⟩ := List.mem_flatten.1 mem
      obtain rfl := List.eq_of_mem_replicate hunit
      exact blank c inside

lemma render_cons (indent : List Char) {g : Gap} (white : g ≠ .touch) :
    ∃ c rest, g.render indent = c :: rest ∧ (c = ' ' ∨ c = '\n') := by
  cases g with
  | touch => exact absurd rfl white
  | space => exact ⟨_, _, rfl, .inl rfl⟩
  | line level => exact ⟨_, _, rfl, .inr rfl⟩

/-- White space parts a mark from the next token, unless the two are brackets with nothing else
between them. -/
lemma mark_absorbs_white {m : Mark} {g : Gap} (white : g ≠ .touch)
    (blank : ∀ c ∈ indent, isBlank c = true) (full : hollow (.mark m) right = false)
    (spelled : Spells pointFirst right s) (k : List Char) :
    m.absorbs pointFirst (g.render indent ++ (s ++ k)) = false := by
  by_cases opening : m = .openParen ∨ m = .openBracket
  · exact opening_absorbs opening full spelled (render_blank blank g) k
  · obtain ⟨c, rest, hgap, start⟩ := render_cons indent white
    rw [hgap, List.cons_append]
    have notDigit : isDigit c = false ∧ isLabelStart c = false ∧ isIriChar c = false := by
      rcases start with rfl | rfl <;> decide
    rcases start with rfl | rfl <;> cases m <;>
      simp_all [Mark.absorbs, startsWithDigit, iriBody?]

/-- Two neighbours that a gap parts, and that neither merge nor are empty brackets, are read one
after the other. -/
theorem Parts.absorbs {g : Gap} (parts : Parts left right g)
    (blank : ∀ c ∈ indent, isBlank c = true) (apart : merging left right = false)
    (full : hollow left right = false) (spelled : Spells pointFirst right s) (k : List Char) :
    left.absorbs pointFirst (g.render indent ++ (s ++ k)) = false := by
  by_cases isComment : left.isComment = true
  · obtain ⟨level, rfl⟩ := parts.endsComment isComment
    obtain ⟨body, rfl⟩ := (Token.isComment_iff left).1 isComment
    rfl
  by_cases isMark : ∃ m, left = .mark m
  · obtain ⟨m, rfl⟩ := isMark
    by_cases white : g = .touch
    · subst white
      exact mark_absorbs_of_adheres (parts.adheres rfl) apart full spelled k
    · exact mark_absorbs_white white blank full spelled k
  · have notMark : ∀ m, left ≠ .mark m := fun m h => isMark ⟨m, h⟩
    have notComment : left.isComment = false := by simpa using isComment
    by_cases white : g = .touch
    · subst white
      obtain ⟨c, rest, rfl, sign⟩ :=
        head_of_adheres (parts.adheres rfl) apart notMark spelled
      exact absorbs_clingingSign sign _ notMark notComment
    · obtain ⟨c, rest, hgap, start⟩ := render_cons indent white
      rw [hgap, List.cons_append]
      refine absorbs_clingingSign ?_ _ notMark notComment
      rcases start with rfl | rfl <;> decide

end Parting

/-! ## A row is read back -/

/-- Gaps part the neighbours of a row. -/
inductive Parted : List Token → List Gap → Prop
  | nil {gs : List Gap} : Parted [] gs
  | last {t : Token} {gs : List Gap} : Parted [t] gs
  | cons {left right : Token} {ts : List Token} {g : Gap} {gs : List Gap} :
      Parts left right g → Parted (right :: ts) gs → Parted (left :: right :: ts) (g :: gs)

section Row

variable {pointFirst : Bool} {indent : List Char}

lemma Reads.spelling {t : Token} {s k : List Char} {ts : List Token}
    (spelled : Spells pointFirst t s) (parted : t.absorbs pointFirst k = false)
    (h : Reads ⟨true, pointFirst⟩ k ts) : Reads ⟨true, pointFirst⟩ (s ++ k) (t :: ts) := by
  by_cases isComment : t.isComment = true
  · obtain ⟨body, rfl⟩ := (Token.isComment_iff t).1 isComment
    cases spelled with
    | comment noBreak => exact .comment noBreak parted h
    | word hw ht => nomatch isVerbal_of_ofWord ht
  · exact .token (first_of_spells spelled (by simpa using isComment) parted) h

lemma Reads.of_closing {manner : Manner} {m : Mark} {k : List Char} {ts : List Token}
    (closing : m = .closeParen ∨ m = .closeBracket)
    (h : Reads manner (m.text ++ k) (.mark m :: ts)) : Reads manner k ts := by
  have found : first manner.pointFirst (m.text ++ k) = .ok (.mark m, m.text) :=
    first_mark m (by rcases closing with rfl | rfl <;> rfl)
  obtain ⟨c, htext, notBlank, notSign⟩ : ∃ c, m.text = [c] ∧ isBlank c = false ∧ c ≠ '#' := by
    rcases closing with rfl | rfl
    · exact ⟨')', rfl, rfl, by decide⟩
    · exact ⟨']', rfl, rfl, by decide⟩
  generalize hcut : m.text ++ k = text at h found
  generalize hts : Token.mark m :: ts = us at h
  rw [htext, List.singleton_append] at hcut
  cases h with
  | done => contradiction
  | blank isBlank h =>
    obtain ⟨rfl, -⟩ := List.cons.inj hcut
    rw [notBlank] at isBlank
    contradiction
  | comment => exact absurd (List.cons.inj hcut).1 notSign
  | token read h =>
    rw [found] at read
    obtain ⟨rfl, rfl⟩ := Prod.mk.inj (Except.ok.inj read)
    obtain rfl := (List.cons.inj hts).2
    rw [htext, List.singleton_append] at hcut
    obtain rfl := (List.cons.inj hcut).2
    exact h

/-! ### Empty brackets -/

lemma closeEmptyBrackets_of_full {left right : Token} (full : hollow left right = false)
    (ts : List Token) :
    closeEmptyBrackets (left :: right :: ts) = left :: closeEmptyBrackets (right :: ts) := by
  rw [closeEmptyBrackets]
  all_goals
    intro rest hleft hright
    obtain ⟨rfl, -⟩ := List.cons.inj hright
    subst hleft
    revert full
    decide

lemma closeEmptyBrackets_parens (ts : List Token) :
    closeEmptyBrackets (.mark .openParen :: .mark .closeParen :: ts) =
      .mark .emptyParens :: closeEmptyBrackets ts := rfl

lemma closeEmptyBrackets_brackets (ts : List Token) :
    closeEmptyBrackets (.mark .openBracket :: .mark .closeBracket :: ts) =
      .mark .emptyBrackets :: closeEmptyBrackets ts := rfl

/-- Induction along the pairs of empty brackets in a row. -/
@[elab_as_elim] lemma hollowInduction {motive : List Token → Prop} (nil : motive [])
    (singleton : ∀ t, motive [t])
    (full : ∀ left right ts, hollow left right = false → motive (right :: ts) →
      motive (left :: right :: ts))
    (parens : ∀ ts, motive ts → motive (.mark .openParen :: .mark .closeParen :: ts))
    (brackets : ∀ ts, motive ts → motive (.mark .openBracket :: .mark .closeBracket :: ts)) :
    ∀ ts, motive ts
  | [] => nil
  | [t] => singleton t
  | left :: right :: ts => by
    by_cases isFull : hollow left right = false
    · exact full left right ts isFull
        (hollowInduction nil singleton full parens brackets (right :: ts))
    · have ih := hollowInduction nil singleton full parens brackets ts
      simp only [hollow, Bool.not_eq_false, Bool.or_eq_true, Bool.and_eq_true,
        Token.isMark_iff] at isFull
      rcases isFull with ⟨rfl, rfl⟩ | ⟨rfl, rfl⟩
      · exact parens ts ih
      · exact brackets ts ih

@[simp] lemma closeEmptyBrackets_singleton (t : Token) : closeEmptyBrackets [t] = [t] := by
  rw [closeEmptyBrackets]
  · rfl
  · simp
  · simp

lemma closeEmptyBrackets_eq_nil {ts : List Token} : closeEmptyBrackets ts = [] ↔ ts = [] := by
  induction ts using hollowInduction with
  | nil => exact Iff.rfl
  | singleton t => simp
  | full left right ts full ih => simp [closeEmptyBrackets_of_full full]
  | parens ts ih => simp [closeEmptyBrackets_parens]
  | brackets ts ih => simp [closeEmptyBrackets_brackets]

lemma closeEmptyBrackets_of_hollowFree {ts : List Token} (h : HollowFree ts) :
    closeEmptyBrackets ts = ts := by
  induction h with
  | nil => rfl
  | singleton => simp
  | cons_cons full _ ih => rw [closeEmptyBrackets_of_full full, ih]

lemma Spells.eq_text {m : Mark} {s : List Char} (h : Spells pointFirst (.mark m) s)
    (single : m ≠ .emptyParens ∧ m ≠ .emptyBrackets) : s = m.text := by
  cases h with
  | mark => rfl
  | emptyParens => exact absurd rfl single.1
  | emptyBrackets => exact absurd rfl single.2
  | word hw ht => nomatch isVerbal_of_ofWord ht

lemma Reads.hollow {left right : Token} {s s' blanks k : List Char} {ts : List Token}
    (empty : hollow left right = true) (spelled : Spells pointFirst left s)
    (spelled' : Spells pointFirst right s') (blank : ∀ c ∈ blanks, isBlank c = true)
    (h : Reads ⟨true, pointFirst⟩ (s' ++ k) (closeEmptyBrackets (right :: ts))) :
    Reads ⟨true, pointFirst⟩ (s ++ (blanks ++ (s' ++ k)))
      (closeEmptyBrackets (left :: right :: ts)) := by
  simp only [SparqlFormat.hollow, Bool.or_eq_true, Bool.and_eq_true, Token.isMark_iff] at empty
  rcases empty with ⟨rfl, rfl⟩ | ⟨rfl, rfl⟩
  · obtain rfl := spelled.eq_text (by decide)
    obtain rfl := spelled'.eq_text (by decide)
    have read := Reads.spelling (.emptyParens blank) rfl (h.of_closing (.inl rfl))
    simpa [Mark.text, closeEmptyBrackets] using read
  · obtain rfl := spelled.eq_text (by decide)
    obtain rfl := spelled'.eq_text (by decide)
    have read := Reads.spelling (.emptyBrackets blank) rfl (h.of_closing (.inr rfl))
    simpa [Mark.text, closeEmptyBrackets] using read

/-! ### The row -/

lemma weave_cons (indent s : List Char) (ss : List (List Char)) (gs : List Gap) :
    ∃ k, weave indent (s :: ss) gs = s ++ k := by
  cases gs with
  | nil => exact ⟨_, by rw [weave]⟩
  | cons g gs => exact ⟨_, by rw [weave, List.append_assoc]⟩

/-- Spellings with gaps that part them are read back, empty brackets as one mark. -/
theorem reads_weave (blank : ∀ c ∈ indent, isBlank c = true) {row : List Reading}
    {gs : List Gap} (spelled : ∀ r ∈ row, Spells pointFirst r.1 r.2)
    (parted : Parted (row.map Prod.fst) gs) (apart : MergeFree (row.map Prod.fst)) :
    Reads ⟨true, pointFirst⟩ (weave indent (row.map Prod.snd) gs)
      (closeEmptyBrackets (row.map Prod.fst)) := by
  induction row generalizing gs with
  | nil => simpa [closeEmptyBrackets] using Reads.done
  | cons r row ih =>
    obtain ⟨first, others⟩ := List.forall_mem_cons.1 spelled
    cases row with
    | nil =>
      have read := Reads.spelling first (absorbs_nil r.1) .done
      simpa using read
    | cons r' row =>
      obtain ⟨second, -⟩ := List.forall_mem_cons.1 others
      simp only [List.map_cons] at parted apart ⊢
      cases parted with
      | @cons _ _ _ g gs parts parted =>
        obtain ⟨notMerging, apart⟩ := List.isChain_cons_cons.1 apart
        have read := ih others parted apart
        simp only [List.map_cons] at read
        obtain ⟨k, hk⟩ := weave_cons indent r'.2 (row.map Prod.snd) gs
        rw [weave, if_neg (by simp), List.append_assoc, hk]
        rw [hk] at read
        by_cases full : SparqlFormat.hollow r.1 r'.1 = false
        · rw [closeEmptyBrackets_of_full full]
          exact .spelling first (parts.absorbs blank notMerging full second k)
            (.blanks (render_blank blank g) read)
        · exact .hollow (by simpa using full) first second (render_blank blank g) read

/-! ### What a reading never holds -/

/-- A reading that starts with a mark is that of a text that starts, blanks apart, like it. -/
lemma Reads.head?_mark {text : List Char} {m : Mark} {ts : List Token}
    (h : Reads ⟨true, pointFirst⟩ text (.mark m :: ts)) :
    (text.dropWhile isBlank).head? = m.text.head? := by
  generalize hts : Token.mark m :: ts = us at h
  induction h with
  | done => contradiction
  | blank isBlank h ih => rw [List.dropWhile_cons_of_pos isBlank, ih hts]
  | comment => simp at hts
  | token read h ih =>
    obtain ⟨rfl, -⟩ := List.cons.inj hts
    obtain ⟨spelled, -⟩ := spells_of_first read
    have start := spelled.head?_mark
    obtain ⟨c, cs, rfl, notBlank, -⟩ := spelled.head
    rw [← start, List.cons_append, List.dropWhile_cons_of_neg (by simp [notBlank])]
    rfl

/-- Brackets with blanks between them are never read one by one. -/
lemma hollow_of_first {s k : List Char} {left right : Token} {ts : List Token}
    (read : first pointFirst (s ++ k) = .ok (left, s))
    (h : Reads ⟨true, pointFirst⟩ k (right :: ts)) : hollow left right = false := by
  by_contra empty
  simp only [hollow, Bool.not_eq_false, Bool.or_eq_true, Bool.and_eq_true,
    Token.isMark_iff] at empty
  rcases empty with ⟨rfl, rfl⟩ | ⟨rfl, rfl⟩
  · obtain rfl := Spells.eq_text (spells_of_first read).1 (by decide)
    obtain ⟨rest, closes⟩ := List.head?_eq_some_iff.1 h.head?_mark
    simp [first, bracket, Mark.text, closes] at read
  · obtain rfl := Spells.eq_text (spells_of_first read).1 (by decide)
    obtain ⟨rest, closes⟩ := List.head?_eq_some_iff.1 h.head?_mark
    simp [first, bracket, Mark.text, closes] at read

/-- A reading that keeps comments holds no empty brackets. -/
theorem Reads.hollowFree {text : List Char} {ts : List Token}
    (h : Reads ⟨true, pointFirst⟩ text ts) : HollowFree ts := by
  induction h with
  | done => exact .nil
  | blank _ _ ih => exact ih
  | @comment body rest ts _ _ _ ih =>
    cases ts with
    | nil => exact .singleton _
    | cons t ts => exact .cons_cons rfl ih
  | @token s rest t ts read h ih =>
    cases ts with
    | nil => exact .singleton _
    | cons t' ts => exact .cons_cons (hollow_of_first read h) ih

end Row

end SparqlFormat
