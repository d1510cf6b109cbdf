import SparqlFormat.Proofs.Acceptance
import SparqlFormat.Proofs.Expanded

/-!
# The two cuts of a text

A text is cut into tokens twice: for the layout as it stands, and by the standard after its code
point escapes are expanded. In a text without escapes the cuts differ in two places only
(`cutAlike_iff_of_escapeFree`). The layout knows no number that starts with its point, and a word
has to end where its letters do: the standard reads `a1` as `a` and `1`, the layout not at all.

A point that is cut off its digits leaves the other tokens as they are, unless a second point
follows the digits (`Cuts.reads_flatMap`).
-/

namespace SparqlFormat

open Lexeme Layout Grammar

/-- The tokens that the many-line layout is made of, each with its escapes replaced. -/
def layoutTokens? (text : List Char) : Option (List Token) :=
  (tokenize true text).toOption.bind fun lexemes =>
    (lexemes.map Lexeme.token).mapM Token.expand?

/-- The form of the tokens that the layout is made of. -/
def layoutForm? (text : List Char) : Option Form :=
  (layoutTokens? text).bind fun row => formOfTokens? (withoutComments row)

/-- The layout and the standard cut a text alike, comments apart. -/
def CutAlike (text : List Char) : Prop :=
  ∃ ts row, layoutTokens? text = some ts ∧ CutsExpanded text row ∧
    row.map Stretch.token = withoutComments ts

instance (text : List Char) : Decidable (CutAlike text) :=
  decidable_of_iff (((layoutTokens? text).any fun ts =>
    ((expandCodePoints text).bind cut).any fun row =>
      row.map Stretch.token == withoutComments ts) = true)
    (by simp only [CutAlike, Option.any_eq_true, bind_cut_eq_some, beq_iff_eq, exists_and_left])

/-- No two tokens that the layout is made of merge, and each is still a token of its kind once the
escapes in it are replaced. -/
def Regular (text : List Char) : Prop :=
  ∀ lexemes, tokenize true text = .ok lexemes → MergeFree (lexemes.map Lexeme.token) ∧
    ∃ row, (lexemes.map Lexeme.token).mapM Token.expand? = some row ∧
      ∀ t ∈ row, t.isComment = false → ∃ s, s ∈ spellings t

lemma layoutTokens?_eq_some {text : List Char} {row : List Token} :
    layoutTokens? text = some row ↔
      ∃ ts, Reads ⟨true, false⟩ text ts ∧ ExpandsTo ts row := by
  unfold layoutTokens?
  simp only [Option.bind_eq_some_iff, mapM_expand?_iff, reads_iff_tokenize]
  cases tokenize true text <;> simp [Except.toOption]

/-! ## Where the cuts differ -/

/-- Whether a token is a number that starts with its point. -/
def Token.startsWithPoint : Token → Bool
  | .number _ digits => digits.head? == some '.'
  | _ => false

/-- Whether a token is a word that runs into what is behind it. -/
def Grammar.Stretch.runsOn (st : Stretch) : Bool :=
  st.token.isVerbal && st.behind.head?.any isWordTail

/-- Whether all tokens that the standard cuts a text into have a property. -/
def EveryStretch (p : Stretch → Bool) (text : List Char) : Prop :=
  ∀ row, CutsExpanded text row → ∀ st ∈ row, p st = true

instance (p : Stretch → Bool) (text : List Char) : Decidable (EveryStretch p text) :=
  decidable_of_iff (((expandCodePoints text).bind cut).all fun row => row.all p) (by
    simp only [EveryStretch, ← bind_cut_eq_some, Option.all_eq_true, List.all_eq_true])

/-- No number starts with its point. -/
def Unpointed : List Char → Prop :=
  EveryStretch fun st => !st.token.startsWithPoint

/-- No word runs into a letter, a digit or an underscore. -/
def WordsApart : List Char → Prop :=
  EveryStretch fun st => !st.runsOn

/-- No number that starts with its point runs into another point. -/
def PointsApart : List Char → Prop :=
  EveryStretch fun st => !(st.token.startsWithPoint && st.behind.head? == some '.')

instance (text : List Char) : Decidable (PointsApart text) :=
  inferInstanceAs (Decidable (EveryStretch _ text))

section Agreement

variable {text s k : List Char} {ts : List Token} {row : List Stretch} {t : Token}

lemma everyStretch_iff {p : Stretch → Bool} (cuts : CutsExpanded text row) :
    EveryStretch p text ↔ ∀ st ∈ row, p st = true :=
  ⟨fun all => all row cuts, fun all _ cuts' => cuts.unique cuts' ▸ all⟩

lemma cutsExpanded_of_escapeFree (free : EscapeFree text) :
    CutsExpanded text row ↔ Cuts text row := by
  simp [CutsExpanded, expansion_iff.1 free.expansion]

/-! ## Escapes -/

lemma expand?_of_escapeFree {pointFirst : Bool} {t : Token} {s : List Char}
    (free : EscapeFree text) (spelled : Spells pointFirst t s) (inside : s <:+: text) :
    t.expand? = some t := by
  have kept : ∀ {part : List Char}, part <:+: s → expandCodePoints part = some part :=
    fun part => expansion_iff.1 (free.of_infix (part.trans inside)).expansion
  cases spelled with
  | @comment body noBreak =>
    have part : trim body <:+: '#' :: body :=
      ((trim_isPrefix body).isInfix.trans (List.dropWhile_suffix _).isInfix).trans
        (List.suffix_cons '#' body).isInfix
    have noBreak' : (trim body).any isLineBreak = false :=
      List.any_eq_false.2 fun c mem => by simp [noBreak c (mem_of_mem_trim mem)]
    rw [Token.expand?, kept part, Option.bind_some, noBreak', if_neg Bool.false_ne_true, trim_trim]
  | string => simp [Token.expand?, kept (List.infix_refl s)]
  | @iri body =>
    have part : body <:+: '<' :: (body ++ ['>']) := ⟨['<'], ['>'], rfl⟩
    simp [Token.expand?, kept part]
  | word hw ht => rcases ofWord_eq_ok ht with ⟨rfl, -⟩ | ⟨-, rfl⟩ | ⟨rfl, -⟩ <;> rfl
  | _ => rfl

lemma layoutTokens?_of_escapeFree (free : EscapeFree text) (read : Reads ⟨true, false⟩ text ts) :
    layoutTokens? text = some ts := by
  refine layoutTokens?_eq_some.2 ⟨ts, read, List.forall₂_same.2 fun t mem => ?_⟩
  obtain ⟨s, spelled, inside⟩ := read.spelled_infix t mem
  exact expand?_of_escapeFree free spelled inside

/-! ## One token -/

lemma startsWithPoint_of_numberOrSign {cs s : List Char} {t : Token}
    (h : numberOrSign '.' cs = .ok (t, s)) : t.startsWithPoint = true := by
  obtain ⟨spelled, isPrefix⟩ : IsSpelledAt true ('.' :: cs) (t, s) :=
    numberOrSign_spelled h (.inl rfl)
  obtain ⟨c, rest, rfl, -⟩ := spelled.head
  obtain ⟨rfl, -⟩ := List.cons_prefix_cons.1 isPrefix
  unfold numberOrSign at h
  split at h
  · next kind digits number =>
    obtain ⟨rfl, rfl⟩ : .number kind digits = t ∧ digits = '.' :: rest := by simpa using h
    rfl
  · simp at h

/-- A token that starts with no point is read whether or not numbers may start with theirs. -/
lemma first_of_not_startsWithPoint {cs s : List Char} {t : Token}
    (h : first true cs = .ok (t, s)) (other : t.startsWithPoint = false) :
    first false cs = .ok (t, s) := by
  cases cs with
  | nil => simp [first] at h
  | cons c cs =>
    by_cases point : (c == '.' && startsWithDigit cs) = true
    · simp only [Bool.and_eq_true, beq_iff_eq] at point
      obtain ⟨rfl, digit⟩ := point
      rw [first_point digit] at h
      rw [startsWithPoint_of_numberOrSign h] at other
      contradiction
    · have point : (c == '.' && startsWithDigit cs) = false := by simpa using point
      simpa only [first, Bool.true_and, Bool.false_and, point] using h

/-- Where the layout reads a token, the standard does. -/
lemma exists_first_of_first {cs : List Char} {r : Reading} (h : first false cs = .ok r) :
    ∃ r', first true cs = .ok r' := by
  cases cs with
  | nil => simp [first] at h
  | cons c cs =>
    by_cases point : (c == '.' && startsWithDigit cs) = true
    · simp only [Bool.and_eq_true, beq_iff_eq] at point
      obtain ⟨rfl, digit⟩ := point
      cases cs with
      | nil => cases digit
      | cons d cs =>
        obtain ⟨kind, x, read⟩ := exists_number?_point digit cs
        exact ⟨_, by rw [first_point digit, numberOrSign, read]⟩
    · have point : (c == '.' && startsWithDigit cs) = false := by simpa using point
      exact ⟨r, by simpa only [first, Bool.true_and, Bool.false_and, point] using h⟩

/-- In a text without escapes, the longest token is read, unless it is a word that runs on. -/
lemma Grammar.IsTerminal.first_or_runsOn (h : IsTerminal (s ++ k) t s)
    (free : EscapeFree (s ++ k)) :
    (first true (s ++ k) = .ok (t, s) ∧ Stretch.runsOn ⟨t, k⟩ = false) ∨
      (∃ f, first true (s ++ k) = .error f) ∧ Stretch.runsOn ⟨t, k⟩ = true := by
  obtain ⟨spelled, notComment, -⟩ := mem_spellings_iff.1 h.spelled
  rcases spelled.first_append notComment k with ⟨t', s', read, longer⟩ | ⟨fails, verbal, goesOn⟩
  · obtain ⟨spelled', atHead, notComment', -⟩ := first_eq_ok.1 read
    have plain := not_isEscaped_of_escapeFree free spelled' atHead.isInfix
    obtain rfl : s = s' :=
      (List.prefix_of_prefix_length_le h.atHead atHead longer).eq_of_length_le
        (h.longest t' s' (mem_of_spells spelled' notComment' plain) atHead)
    obtain rfl := spelled.unique spelled' notComment notComment'
    refine .inl ⟨read, ?_⟩
    cases verbal : t.isVerbal with
    | false => simp [Stretch.runsOn, verbal]
    | true => simp [Stretch.runsOn, whole_of_first read verbal]
  · exact .inr ⟨fails, by simp [Stretch.runsOn, verbal, goesOn]⟩

lemma exists_point_of_spells (spelled : Spells true t s) (point : t.startsWithPoint = true) :
    ∃ kind digits, t = .number kind ('.' :: digits) ∧ s = '.' :: digits := by
  cases spelled with
  | @number kind =>
    cases s with
    | nil => cases point
    | cons c digits =>
      obtain rfl : c = '.' := by simpa [Token.startsWithPoint] using point
      exact ⟨kind, digits, rfl, rfl⟩
  | word _ read => rcases ofWord_eq_ok read with ⟨rfl, -⟩ | ⟨-, rfl⟩ | ⟨rfl, -⟩ <;> cases point
  | _ => cases point

lemma first_dot (k : List Char) : first false ('.' :: k) = .ok (.mark .dot, ['.']) :=
  first_lone false (m := .dot) rfl rfl

/-- The layout reads the longest token of a text without escapes exactly if it is no number that
starts with its point and no word that runs on. -/
lemma Grammar.IsTerminal.first_iff {s' : List Char} (h : IsTerminal (s ++ k) t s)
    (free : EscapeFree (s ++ k)) :
    first false (s ++ k) = .ok (t, s') ↔
      s' = s ∧ t.startsWithPoint = false ∧ Stretch.runsOn ⟨t, k⟩ = false := by
  constructor
  · intro read
    rcases h.first_or_runsOn free with ⟨longest, apart⟩ | ⟨⟨f, fails⟩, -⟩
    · cases point : t.startsWithPoint with
      | false =>
        rw [first_of_not_startsWithPoint longest point] at read
        obtain ⟨-, rfl⟩ := Prod.mk.inj (Except.ok.inj read)
        exact ⟨rfl, rfl, apart⟩
      | true =>
        obtain ⟨kind, digits, rfl, rfl⟩ :=
          exists_point_of_spells (mem_spellings_iff.1 h.spelled).1 point
        rw [List.cons_append, first_dot] at read
        cases read
    · obtain ⟨r, read⟩ := exists_first_of_first read
      rw [fails] at read
      cases read
  · rintro ⟨rfl, unpointed, apart⟩
    rcases h.first_or_runsOn free with ⟨longest, -⟩ | ⟨-, runs⟩
    · exact first_of_not_startsWithPoint longest unpointed
    · rw [apart] at runs
      cases runs

/-! ## A text read on from its head -/

section Head

variable {manner : Manner} {c : Char} {cs body rest : List Char}

lemma Reads.of_blank (isBlank : isBlank c = true) (h : Reads manner (c :: cs) ts) :
    Reads manner cs ts := by
  generalize split : c :: cs = text at h
  cases h with
  | done => cases split
  | blank _ h =>
    obtain ⟨rfl, rfl⟩ := List.cons.inj split
    exact h
  | comment =>
    obtain ⟨rfl, rfl⟩ := List.cons.inj split
    cases isBlank
  | token read =>
    obtain ⟨d, ds, rfl, notBlank, -⟩ := first_source read
    obtain ⟨rfl, -⟩ := List.cons.inj split
    rw [notBlank] at isBlank
    cases isBlank

lemma Reads.of_comment (noBreak : ∀ c ∈ body, isLineBreak c = false)
    (ends : (rest.head?.any fun c => !isLineBreak c) = false) (drops : manner.keepComments = false)
    (h : Reads manner ('#' :: (body ++ rest)) ts) : Reads manner rest ts := by
  generalize split : '#' :: (body ++ rest) = text at h
  cases h with
  | done => cases split
  | blank isBlank =>
    obtain ⟨rfl, -⟩ := List.cons.inj split
    cases isBlank
  | @comment body' rest' _ noBreak' ends' h =>
    obtain ⟨-, split⟩ := List.cons.inj split
    have same := (comment_append noBreak ends).symm.trans
      ((congrArg Lexeme.comment split).trans (comment_append noBreak' ends'))
    obtain rfl : body = body' := (List.cons.inj (Prod.mk.inj same).2).2
    obtain rfl := List.append_cancel_left split
    simpa [drops] using h
  | token read =>
    obtain ⟨d, ds, rfl, -, notSign⟩ := first_source read
    obtain ⟨rfl, -⟩ := List.cons.inj split
    exact absurd rfl notSign

lemma Reads.of_token (notBlank : isBlank c = false) (notSign : (c == '#') = false)
    (h : Reads manner (c :: cs) ts) :
    ∃ t s k us, c :: cs = s ++ k ∧ ts = t :: us ∧
      first manner.pointFirst (c :: cs) = .ok (t, s) ∧ Reads manner k us := by
  generalize split : c :: cs = text at h
  cases h with
  | done => cases split
  | blank isBlank =>
    obtain ⟨rfl, -⟩ := List.cons.inj split
    rw [notBlank] at isBlank
    cases isBlank
  | comment =>
    obtain ⟨rfl, -⟩ := List.cons.inj split
    cases notSign
  | token read h => exact ⟨_, _, _, _, rfl, rfl, read, h⟩

lemma Reads.of_first (read : first manner.pointFirst (s ++ k) = .ok (t, s))
    (h : Reads manner (s ++ k) ts) : ∃ us, ts = t :: us ∧ Reads manner k us := by
  obtain ⟨c, cs, rfl, notBlank, notSign⟩ := first_source read
  obtain ⟨t', s', k', us, split, rfl, read', others⟩ := h.of_token notBlank (by simpa using notSign)
  obtain ⟨rfl, rfl⟩ := Prod.mk.inj (Except.ok.inj (read.symm.trans read'))
  obtain rfl : k = k' := by simpa using split
  exact ⟨us, rfl, others⟩

end Head

/-! ## Texts without escapes -/

lemma ends_of_head? {rest : List Char} (lineEnd : ∀ c ∈ rest.head?, isLineBreak c = true) :
    (rest.head?.any fun c => !isLineBreak c) = false := by
  cases rest <;> simp_all

/-- The tokens that the standard cuts a text without escapes into are read exactly if the standard
and the layout differ over none of them. -/
theorem Grammar.Cuts.reads_iff (free : EscapeFree text) (cuts : Cuts text row) :
    Reads ⟨false, false⟩ text (row.map Stretch.token) ↔
      ∀ st ∈ row, st.token.startsWithPoint = false ∧ st.runsOn = false := by
  induction cuts with
  | done => exact ⟨fun _ => by simp, fun _ => .done⟩
  | @blank c cs row isBlank _ ih =>
    rw [← ih (free.of_infix (List.suffix_cons c cs).isInfix)]
    exact ⟨Reads.of_blank isBlank, .blank isBlank⟩
  | @comment body rest row noBreak lineEnd _ ih =>
    rw [← ih (free.of_infix ⟨'#' :: body, [], by simp⟩)]
    have ends := ends_of_head? lineEnd
    exact ⟨Reads.of_comment noBreak ends rfl, .comment noBreak ends⟩
  | @terminal s rest t row terminal _ ih =>
    rw [List.forall_mem_cons, ← ih (free.of_infix (List.suffix_append s rest).isInfix),
      List.map_cons]
    constructor
    · intro h
      obtain ⟨c, cs, rfl, notBlank, notSign⟩ := terminal.head
      obtain ⟨t', s', k, us, split, tokens, read, others⟩ := h.of_token notBlank notSign
      obtain ⟨rfl, rfl⟩ := List.cons.inj tokens
      obtain ⟨rfl, apart⟩ := (terminal.first_iff free).1 read
      obtain rfl : rest = k := by simpa using split
      exact ⟨apart, others⟩
    · rintro ⟨⟨unpointed, apart⟩, others⟩
      exact .token ((terminal.first_iff free).2 ⟨rfl, unpointed, apart⟩) others

/-- A text without escapes is cut alike exactly if no number starts with its point and no word
runs on. -/
theorem cutAlike_iff_of_escapeFree (free : EscapeFree text) (cuts : CutsExpanded text row) :
    CutAlike text ↔ Unpointed text ∧ WordsApart text := by
  have apart : (Unpointed text ∧ WordsApart text) ↔
      ∀ st ∈ row, st.token.startsWithPoint = false ∧ st.runsOn = false := by
    simp only [Unpointed, WordsApart, everyStretch_iff cuts, Bool.not_eq_true', forall_and]
  rw [apart, ← Cuts.reads_iff free ((cutsExpanded_of_escapeFree free).1 cuts)]
  constructor
  · rintro ⟨ts, row', laidOut, cuts', same⟩
    obtain ⟨us, read, expands⟩ := layoutTokens?_eq_some.1 laidOut
    have kept := layoutTokens?_of_escapeFree free read
    obtain rfl : us = ts := Option.some.inj (kept.symm.trans laidOut)
    rw [cuts.unique cuts', same]
    exact read.dropComments
  · intro read
    obtain ⟨whole, readWhole, same⟩ := read.restoreComments
    exact ⟨whole, row, layoutTokens?_of_escapeFree free readWhole, cuts, same.symm⟩

/-- Regular are the texts without escapes of which no two tokens merge. -/
theorem regular_of_escapeFree (free : EscapeFree text)
    (apart : ∀ lexemes, tokenize true text = .ok lexemes → MergeFree (lexemes.map Lexeme.token)) :
    Regular text := by
  intro lexemes cut
  have read : Reads ⟨true, false⟩ text (lexemes.map Lexeme.token) :=
    reads_iff_tokenize.2 ⟨lexemes, cut, rfl⟩
  have kept := layoutTokens?_of_escapeFree free read
  simp only [layoutTokens?, cut, Except.toOption, Option.bind_some] at kept
  refine ⟨apart lexemes cut, _, kept, fun t mem notComment => ?_⟩
  obtain ⟨s, spelled, inside⟩ := read.spelled_infix t mem
  exact ⟨s, mem_of_spells spelled.mono notComment
    (not_isEscaped_of_escapeFree free spelled.mono inside)⟩

/-! ## Points cut off -/

/-- The tokens that the layout reads for a token of the standard: a number that starts with its
point is a point and a number. -/
def Token.pointOff : Token → List Token
  | .number kind ('.' :: digits) =>
    [.mark .dot, .number (if kind = .decimal then .integer else kind) digits]
  | t => [t]

lemma pointOff_of_not_startsWithPoint (other : t.startsWithPoint = false) : t.pointOff = [t] := by
  unfold Token.pointOff
  split
  · cases other
  · rfl

/-- Behind its point, a number that starts with it is one by itself, if no other point follows. -/
lemma number?_of_point {kind : NumberKind} {digits : List Char}
    (read : number? ('.' :: (digits ++ k)) = some (kind, '.' :: digits))
    (apart : k.head? ≠ some '.') :
    number? (digits ++ k) = some (if kind = .decimal then .integer else kind, digits) := by
  have digit := startsWithDigit_of_number? read
  obtain ⟨f, r, cut, fraction, stop⟩ : ∃ f r, digits ++ k = f ++ r ∧
      (∀ c ∈ f, isDigit c = true) ∧ r.head?.any isDigit = false :=
    ⟨_, _, List.takeWhile_append_dropWhile.symm, fun c => of_mem_takeWhile,
      head?_dropWhile_any isDigit _⟩
  cases f with
  | nil =>
    rw [cut, List.nil_append, startsWithDigit, stop] at digit
    cases digit
  | cons d f =>
    have first : isDigit d = true := fraction d List.mem_cons_self
    have noSign : sign (digits ++ k) = [] := by
      rw [cut]
      exact sign_append [] r (by simp [first])
    obtain ⟨y, hy, split⟩ := number?_eq_some.1 read
    obtain rfl : '.' :: digits = y := split
    have pointed : unsigned? ('.' :: (d :: f ++ r)) = some (kind, '.' :: digits) := cut ▸ hy
    have value := unsigned?_of_point (w := []) (by simp) fraction stop
    rw [List.nil_append, pointed] at value
    refine number?_eq_some.2 ⟨digits, ?_, by rw [noSign]; rfl⟩
    rw [noSign, List.length_nil, List.drop_zero, cut]
    cases exponent : exponent? r with
    | none =>
      obtain ⟨rfl, rfl⟩ : kind = .decimal ∧ digits = d :: f := by simpa [exponent] using value
      obtain rfl := List.append_cancel_left cut
      have stop : (k.head?.any fun c => isDigit c || c == '.') = false := by
        cases k with
        | nil => rfl
        | cons c k =>
          have notDigit : isDigit c = false := stop
          simpa [notDigit] using apart
      rw [unsigned?_of_no_point fraction stop, exponent]
      rfl
    | some e =>
      obtain ⟨rfl, rfl⟩ : kind = .double ∧ digits = d :: f ++ e := by
        simpa [exponent] using value
      obtain ⟨k', rfl⟩ := exponent?_isPrefix exponent
      rw [unsigned?_of_no_point fraction (exponent?_head exponent), exponent]
      rfl

/-- So the layout reads it, behind its point. -/
lemma first_of_point {kind : NumberKind} {digits : List Char}
    (read : first true ('.' :: (digits ++ k)) = .ok (.number kind ('.' :: digits), '.' :: digits))
    (apart : k.head? ≠ some '.') :
    first false (digits ++ k) =
      .ok (.number (if kind = .decimal then .integer else kind) digits, digits) := by
  cases digit : startsWithDigit (digits ++ k) with
  | false =>
    have alone := first_lone true (c := '.') (m := .dot) rfl (by simpa [Mark.absorbs] using digit)
    cases read.symm.trans alone
  | true =>
    have number : number? ('.' :: (digits ++ k)) = some (kind, '.' :: digits) := by
      rw [first_point digit, numberOrSign] at read
      split at read
      · next found => cases read; exact found
      · cases read
    have behind := number?_of_point number apart
    cases hcs : digits ++ k with
    | nil => rw [hcs] at digit; cases digit
    | cons d cs =>
      rw [hcs] at behind digit
      rw [first_digit false digit, numberOrSign, behind]

/-- A text without escapes, of which no number that starts with its point runs into another, is
read as the standard cuts it, but for these points. -/
theorem Grammar.Cuts.reads_flatMap (free : EscapeFree text) (cuts : Cuts text row)
    (apart : ∀ st ∈ row, st.token.startsWithPoint = true → st.behind.head? ≠ some '.')
    (h : Reads ⟨false, false⟩ text ts) : ts = (row.map Stretch.token).flatMap Token.pointOff := by
  induction cuts generalizing ts with
  | done => exact h.unique .done
  | @blank c cs row isBlank _ ih =>
    exact ih (free.of_infix (List.suffix_cons c cs).isInfix) apart (h.of_blank isBlank)
  | @comment body rest row noBreak lineEnd _ ih =>
    exact ih (free.of_infix ⟨'#' :: body, [], by simp⟩) apart
      (h.of_comment noBreak (ends_of_head? lineEnd) rfl)
  | @terminal s rest t row terminal _ ih =>
    obtain ⟨parted, apart⟩ := List.forall_mem_cons.1 apart
    have ih := fun {us} => @ih us (free.of_infix (List.suffix_append s rest).isInfix) apart
    obtain ⟨longest, runs⟩ := (terminal.first_or_runsOn free).resolve_right (by
      rintro ⟨⟨f, fails⟩, -⟩
      obtain ⟨c, cs, rfl, notBlank, notSign⟩ := terminal.head
      obtain ⟨t', s', k, us, -, -, read, -⟩ := h.of_token notBlank notSign
      obtain ⟨r, read'⟩ := exists_first_of_first read
      exact nomatch fails.symm.trans read')
    rw [List.map_cons, List.flatMap_cons]
    cases point : t.startsWithPoint with
    | false =>
      obtain ⟨us, rfl, others⟩ := h.of_first ((terminal.first_iff free).2 ⟨rfl, point, runs⟩)
      rw [ih others, pointOff_of_not_startsWithPoint point, List.singleton_append]
    | true =>
      obtain ⟨kind, digits, rfl, rfl⟩ :=
        exists_point_of_spells (mem_spellings_iff.1 terminal.spelled).1 point
      obtain ⟨us, rfl, behind⟩ := Reads.of_first (s := ['.']) (first_dot (digits ++ rest)) h
      obtain ⟨us, rfl, others⟩ := behind.of_first (first_of_point longest (parted rfl))
      rw [ih others]
      rfl

end Agreement

end SparqlFormat
