import Mathlib.Data.List.TakeWhile
import SparqlFormat.Proofs.LookAhead

/-!
# Tokens do not depend on how they are spaced

A text is its lexemes with gaps between them, and what stands in the gaps may be exchanged: a gap
between two lexemes for any other, as long as no gap comes or goes and a comment keeps the line
break that ends it, and the gaps at the two ends for any blanks or none (`Respaces`).

What follows a token is squeezed to the same in both texts (`Respaces.squeeze_eq`), so the same
token is read in front of it. A comment takes the blanks of its line, which are trimmed off its
body again (`trim_append`).
-/

namespace SparqlFormat

open Lexeme

/-! ## Blanks behind a comment -/

lemma isWhiteSpace_of_isBlank {c : Char} (blank : isBlank c = true) : isWhiteSpace c = true := by
  simp only [isBlank, Bool.or_eq_true, beq_iff_eq] at blank
  rcases blank with ((rfl | rfl) | rfl) | rfl <;> decide

lemma trim_append {white : List Char} (isWhite : ∀ c ∈ white, isWhiteSpace c = true)
    (cs : List Char) : trim (cs ++ white) = trim cs := by
  have all : white.dropWhile isWhiteSpace = [] := List.dropWhile_eq_nil_iff.2 isWhite
  have none : white.reverse.dropWhile isWhiteSpace = [] :=
    List.dropWhile_eq_nil_iff.2 fun c mem => isWhite c (List.mem_reverse.1 mem)
  rw [trim, trim, List.dropWhile_append]
  split
  · next empty => rw [all, List.isEmpty_iff.1 empty]
  · rw [List.reverse_append, List.dropWhile_append, none]
    rfl

/-! ## Respaced texts -/

/-- Whether the gap behind a token may be exchanged for another one. There is to be a gap in both
places or in neither, and one behind a comment is to end it. -/
def MayReplace (t : Token) (gap gap' : List Char) : Prop :=
  (gap = [] ↔ gap' = []) ∧ (t.isComment = true → gap'.any isLineBreak = true)

instance (t : Token) (gap gap' : List Char) : Decidable (MayReplace t gap gap') :=
  inferInstanceAs (Decidable (_ ∧ _))

/-- Two texts made of the same lexemes, with blanks before, between and after them. Each gap between
two lexemes of the one text may be exchanged for the one in the other; so may any two gaps at an end
of the texts. The token that stands before the texts, if any, is given. A lexeme starts with a
character that is no blank, so a text and its lexemes decide which the gaps are. -/
inductive Respaces : Option Token → List Lexeme → List Char → List Char → Prop
  | last {prev : Option Token} {gap gap' : List Char} : (∀ c ∈ gap, isBlank c = true) →
      (∀ c ∈ gap', isBlank c = true) → Respaces prev [] gap gap'
  | cons {prev : Option Token} {gap gap' k k' : List Char} {l : Lexeme} {ls : List Lexeme} :
      (∀ c ∈ gap, isBlank c = true) → (∀ c ∈ gap', isBlank c = true) →
      (∀ t ∈ prev, MayReplace t gap gap') → (l.source.head?.any fun c => !isBlank c) = true →
      Respaces (some l.token) ls k k' →
      Respaces prev (l :: ls) (gap ++ (l.source ++ k)) (gap' ++ (l.source ++ k'))

namespace Respaces

variable {prev : Option Token} {t : Token} {l : Lexeme} {ls : List Lexeme}
  {text k k' : List Char}

/-- At the start of a text, any blanks may be exchanged for any others. -/
lemma weaken (h : Respaces prev ls k k') : Respaces none ls k k' := by
  cases h with
  | last blank blank' => exact .last blank blank'
  | cons blank blank' _ visible h => exact .cons blank blank' (by simp) visible h

lemma squeeze_eq (h : Respaces (some t) ls k k') : squeeze k = squeeze k' := by
  generalize hprev : some t = prev at h
  induction h generalizing t with
  | last blank blank' => rw [squeeze_blanks blank, squeeze_blanks blank']
  | @cons prev gap gap' k k' l ls blank blank' replace _ _ ih =>
    subst hprev
    have same := squeeze_append_congr (ih rfl) l.source
    obtain ⟨⟨gaps, gaps'⟩, -⟩ := replace t rfl
    by_cases empty : gap = []
    · rw [gaps empty, empty]
      exact same
    · rw [squeeze_gap blank empty, squeeze_gap blank' (mt gaps' empty)]
      exact congrArg (squeezeCons ' ') same

lemma lexeme (visible : (l.source.head?.any fun c => !isBlank c) = true)
    (notComment : ∀ t ∈ prev, t.isComment = false) (h : Respaces (some l.token) ls k k') :
    Respaces prev (l :: ls) (l.source ++ k) (l.source ++ k') := by
  have gapless := List.forall_mem_nil fun c => isBlank c = true
  have touching : ∀ t ∈ prev, MayReplace t [] [] := fun t mem =>
    ⟨Iff.rfl, fun isComment => absurd isComment (by simp [notComment t mem])⟩
  have split := Respaces.cons gapless gapless touching visible h
  exact split

lemma blank {c c' : Char} (isBlank : isBlank c = true) (isBlank' : SparqlFormat.isBlank c' = true)
    (ends : ∀ t ∈ prev, t.isComment = true → isLineBreak c' = true) (h : Respaces none ls k k') :
    Respaces prev ls (c :: k) (c' :: k') := by
  cases h with
  | last blank blank' =>
    exact .last (List.forall_mem_cons.2 ⟨isBlank, blank⟩)
      (List.forall_mem_cons.2 ⟨isBlank', blank'⟩)
  | @cons _ gap gap' k k' l ls blank blank' _ visible h =>
    have replace : ∀ t ∈ prev, MayReplace t (c :: gap) (c' :: gap') := fun t mem =>
      ⟨by simp, fun isComment => by rw [List.any_cons, ends t mem isComment, Bool.true_or]⟩
    exact .cons (List.forall_mem_cons.2 ⟨isBlank, blank⟩)
      (List.forall_mem_cons.2 ⟨isBlank', blank'⟩) replace visible h

lemma of_blank {c : Char} (isBlank : isBlank c = true) (h : Respaces none ls (c :: k) text) :
    Respaces none ls k text := by
  generalize hstart : c :: k = start at h
  cases h with
  | last blank blank' =>
    subst hstart
    exact .last (List.forall_mem_cons.1 blank).2 blank'
  | @cons _ gap gap' k₁ k' l ls blank blank' _ visible h =>
    cases gap with
    | nil =>
      cases hsource : l.source with
      | nil => simp [hsource] at visible
      | cons d s =>
        rw [hsource, List.nil_append, List.cons_append] at hstart
        obtain ⟨rfl, -⟩ := List.cons.inj hstart
        simp [hsource, isBlank] at visible
    | cons d gap =>
      obtain ⟨rfl, rfl⟩ := List.cons.inj hstart
      exact .cons (List.forall_mem_cons.1 blank).2 blank' (by simp) visible h

/-- Where the first text starts with its first lexeme, the second one has blanks before it at
most. -/
lemma of_source {offset : Nat} {s : List Char}
    (h : Respaces none (⟨t, s, offset⟩ :: ls) (s ++ k) text) :
    ∃ gap k', text = gap ++ (s ++ k') ∧ (∀ c ∈ gap, isBlank c = true) ∧
      Respaces (some t) ls k k' := by
  generalize hstart : s ++ k = start at h
  cases h with
  | @cons _ gap gap' k₁ k' l ls blank blank' _ visible h =>
    cases gap with
    | nil =>
      obtain rfl := List.append_cancel_left hstart
      exact ⟨gap', k', rfl, blank', h⟩
    | cons d gap =>
      cases s with
      | nil => simp at visible
      | cons c s =>
        obtain ⟨rfl, -⟩ := List.cons.inj hstart
        simp [blank c List.mem_cons_self] at visible

/-- Behind a comment, the second text has blanks up to a line break or up to its end. -/
lemma of_comment (isComment : t.isComment = true) (h : Respaces (some t) ls k text) :
    ∃ gap k', text = gap ++ k' ∧ (∀ c ∈ gap, isBlank c = true ∧ isLineBreak c = false) ∧
      (k'.head?.any fun c => !isLineBreak c) = false ∧ Respaces none ls k k' := by
  have line : ∀ {gap : List Char}, (∀ c ∈ gap, isBlank c = true) →
      (∀ c ∈ gap.takeWhile fun c => !isLineBreak c, isBlank c = true ∧ isLineBreak c = false) ∧
        ∀ c ∈ gap.dropWhile fun c => !isLineBreak c, isBlank c = true := by
    refine fun blank => ⟨fun c mem => ⟨?_, by simpa using of_mem_takeWhile mem⟩, fun c mem => ?_⟩
    · exact blank c ((List.takeWhile_prefix _).subset mem)
    · exact blank c ((List.dropWhile_suffix _).subset mem)
  cases h with
  | last blank blank' =>
    exact ⟨_, _, List.takeWhile_append_dropWhile.symm, (line blank').1,
      head?_dropWhile_any _ text, .last blank (line blank').2⟩
  | @cons _ gap gap' k k' l ls blank blank' replace visible h =>
    obtain ⟨c, mem, isBreak⟩ := List.any_eq_true.1 ((replace t rfl).2 isComment)
    have ends := head?_dropWhile_any (fun c => !isLineBreak c) gap'
    have more : (gap'.dropWhile fun c => !isLineBreak c) ≠ [] := fun none => by
      simpa [isBreak] using List.dropWhile_eq_nil_iff.1 none c mem
    refine ⟨gap'.takeWhile fun c => !isLineBreak c,
      (gap'.dropWhile fun c => !isLineBreak c) ++ (l.source ++ k'), ?_, (line blank').1, ?_,
      .cons blank (line blank').2 (by simp) visible h⟩
    · rw [← List.append_assoc (List.takeWhile _ _), List.takeWhile_append_dropWhile]
    · rwa [List.head?_append_of_ne_nil _ more]

end Respaces

/-! ## A respaced text is scanned to the same tokens -/

section Scan

variable {pointFirst : Bool} {offset : Nat} {text : List Char} {lexemes : List Lexeme}

lemma Scan.respaces (h : Scan ⟨true, pointFirst⟩ offset text (.ok lexemes)) {prev : Option Token}
    (ends : ∀ t ∈ prev, t.isComment = true → (text.head?.any fun c => !isLineBreak c) = false) :
    Respaces prev lexemes text text := by
  -- a lexeme starts with no line break, so none stands right behind a comment
  have apart : ∀ {prev : Option Token} {k : List Char},
      (k.head?.any fun c => !isBlank c) = true →
      (∀ t ∈ prev, t.isComment = true → (k.head?.any fun c => !isLineBreak c) = false) →
      ∀ t ∈ prev, t.isComment = false := by
    intro prev k visible ends t mem
    by_contra isComment
    rw [Bool.not_eq_false] at isComment
    rw [head?_any_mono (fun c => ?_) (ends t mem isComment)] at visible
    · cases visible
    · exact fun notBlank => by simpa using mt isBlank_of_isLineBreak (by simpa using notBlank)
  generalize houtcome : Except.ok lexemes = outcome at h
  induction h generalizing lexemes prev with
  | done =>
    obtain rfl := Except.ok.inj houtcome
    exact .last (by simp) (by simp)
  | blank isBlank _ ih =>
    exact (ih (by simp) houtcome).blank isBlank isBlank (by simpa using ends)
  | @comment offset body rest outcome _ stop _ ih =>
    obtain ⟨others, rfl, rfl⟩ := Outcome.after_eq_ok.1 houtcome.symm
    exact .lexeme (l := commentAt offset body) rfl (apart rfl ends) (ih (by simp [stop]) rfl)
  | @token offset s rest t outcome read _ ih =>
    obtain ⟨others, rfl, rfl⟩ := Outcome.after_eq_ok.1 houtcome.symm
    obtain ⟨c, cs, rfl, visible, -⟩ := first_source read
    have notBlank : ((c :: cs ++ rest).head?.any fun c => !isBlank c) = true := by simp [visible]
    refine .lexeme (l := ⟨t, c :: cs, offset⟩) (by simp [visible]) (apart notBlank ends) (ih ?_ rfl)
    simp [isComment_of_first read]
  | fault => contradiction

/-- What is respaced is read as the same tokens. -/
lemma Scan.reads_respaced (h : Scan ⟨true, pointFirst⟩ offset text (.ok lexemes))
    {text' : List Char} (respaced : Respaces none lexemes text text') :
    Reads ⟨true, pointFirst⟩ text' (lexemes.map Lexeme.token) := by
  generalize houtcome : Except.ok lexemes = outcome at h
  induction h generalizing lexemes text' with
  | done =>
    obtain rfl := Except.ok.inj houtcome
    cases respaced with
    | last _ blank =>
      have read : Reads ⟨true, pointFirst⟩ (text' ++ []) [] := Reads.done.blanks blank
      rwa [List.append_nil] at read
  | blank isBlank _ ih => exact ih (respaced.of_blank isBlank) houtcome
  | @comment offset body rest outcome noBreak _ _ ih =>
    obtain ⟨others, rfl, rfl⟩ := Outcome.after_eq_ok.1 houtcome.symm
    obtain ⟨gap, k', rfl, blank, behind⟩ := respaced.of_source (s := '#' :: body)
    obtain ⟨spaces, k'', rfl, white, stop, behind⟩ := behind.of_comment rfl
    have noBreak' : ∀ c ∈ body ++ spaces, isLineBreak c = false :=
      List.forall_mem_append.2 ⟨noBreak, fun c mem => (white c mem).2⟩
    have read := Reads.comment noBreak' stop (ih behind rfl)
    rw [trim_append fun c mem => isWhiteSpace_of_isBlank (white c mem).1, List.append_assoc] at read
    exact read.blanks blank
  | @token offset s rest t outcome read _ ih =>
    obtain ⟨others, rfl, rfl⟩ := Outcome.after_eq_ok.1 houtcome.symm
    obtain ⟨gap, k', rfl, blank, behind⟩ := respaced.of_source
    exact (Reads.token (first_of_squeeze read behind.squeeze_eq) (ih behind.weaken rfl)).blanks
      blank
  | fault => contradiction

end Scan

/-- Tokens do not depend on how they are spaced. A text that is tokenized, comments included, is its
lexemes with gaps between them; with any other gaps in the places of these it is tokenized as well,
and to the same tokens. -/
theorem tokenize_respaced {text : List Char} {lexemes : List Lexeme}
    (cut : tokenize true text = .ok lexemes) :
    Respaces none lexemes text text ∧
      ∀ text', Respaces none lexemes text text' →
        ∃ lexemes', tokenize true text' = .ok lexemes' ∧
          lexemes'.map Lexeme.token = lexemes.map Lexeme.token := by
  have scan := tokenize_eq_ok.1 cut
  refine ⟨scan.respaces (by simp), fun text' respaced => ?_⟩
  exact reads_iff_tokenize.1 (scan.reads_respaced respaced)

/-- Lexemes that would be read otherwise if the gaps between them were to go: brackets around a
comment, the empty string in front of another one, a sign in front of an identifier. -/
def sensitive : List Lexeme :=
  [⟨.mark .openParen, ['('], 0⟩, ⟨.comment ['c'], ['#', ' ', 'c'], 2⟩,
   ⟨.mark .closeParen, [')'], 6⟩, ⟨.string ['\'', '\''], ['\'', '\''], 7⟩,
   ⟨.string ['\'', 'a', '\''], ['\'', 'a', '\''], 10⟩, ⟨.mark .below, ['<'], 13⟩,
   ⟨.iri ['b'], ['<', 'b', '>'], 15⟩]

/-- Such lexemes with spaces and line feeds between them, and with tabs and carriage returns. -/
theorem tokenize_respaced_sensitive :
    tokenize true "( # c\n)'' 'a'< <b>\n".toList = .ok sensitive ∧
      Respaces none sensitive "( # c\n)'' 'a'< <b>\n".toList
        "\t(\r\n# c \t\r\r )''\t\t'a'<\r<b>".toList ∧
      ∃ lexemes', tokenize true "\t(\r\n# c \t\r\r )''\t\t'a'<\r<b>".toList = .ok lexemes' ∧
        lexemes'.map Lexeme.token = sensitive.map Lexeme.token := by
  have cut : tokenize true "( # c\n)'' 'a'< <b>\n".toList = .ok sensitive := by
    decide +kernel
  have blank (gap : List Char) (all : gap.all isBlank = true) : ∀ c ∈ gap, isBlank c = true :=
    List.all_eq_true.1 all
  have respaced : Respaces none sensitive
      "( # c\n)'' 'a'< <b>\n".toList "\t(\r\n# c \t\r\r )''\t\t'a'<\r<b>".toList :=
    have split : Respaces none sensitive _ _ :=
      .cons (blank [] rfl) (blank ['\t'] rfl) (by decide) rfl <|
      .cons (blank [' '] rfl) (blank ['\r', '\n'] rfl) (by decide) rfl <|
      .cons (blank ['\n'] rfl) (blank [' ', '\t', '\r', '\r', ' '] rfl) (by decide) rfl <|
      .cons (blank [] rfl) (blank [] rfl) (by decide) rfl <|
      .cons (blank [' '] rfl) (blank ['\t', '\t'] rfl) (by decide) rfl <|
      .cons (blank [] rfl) (blank [] rfl) (by decide) rfl <|
      .cons (blank [' '] rfl) (blank ['\r'] rfl) (by decide) rfl <|
      .last (blank ['\n'] rfl) (blank [] rfl)
    split
  exact ⟨cut, respaced, (tokenize_respaced cut).2 _ respaced⟩

end SparqlFormat
