import SparqlFormat.Proofs.LongestReading

/-!
# What a token looks ahead to

Several tokens are told apart by what stands far behind them: an opening bracket by the next
character that is no blank, the empty string by a long string that may start there, an identifier by
the bracket that may close it. None of them looks at how many blanks stand in a place, or at which.
So a text may be squeezed before it is looked at: its blanks run together, and none are left at its
end (`squeeze`).

Texts that are squeezed to the same are alike for every token in front of them (`first_of_squeeze`).
-/

namespace SparqlFormat

open Lexeme Terminals

/-! ## Squeezed texts -/

/-- A character in front of a squeezed text. A blank is seen only in front of a character that is
none. -/
def squeezeCons (c : Char) (cs : List Char) : List Char :=
  if isBlank c then
    if cs.head?.any (fun d => !isBlank d) then ' ' :: cs else cs
  else c :: cs

/-- A text with one space for every run of blanks, and with no blanks at its end. -/
def squeeze (text : List Char) : List Char :=
  text.foldr squeezeCons []

section Squeeze

variable {c : Char} {gap m k k' : List Char}

@[simp] lemma squeeze_nil : squeeze [] = [] := rfl

lemma squeeze_visible (visible : isBlank c = false) (k : List Char) :
    squeeze (c :: k) = c :: squeeze k :=
  if_neg (by simp [visible])

lemma squeeze_blank (blank : isBlank c = true) (k : List Char) :
    squeeze (c :: k) =
      if (squeeze k).head?.any (fun d => !isBlank d) then ' ' :: squeeze k else squeeze k :=
  if_pos blank

lemma squeeze_blank_cases (blank : isBlank c = true) (k : List Char) :
    squeeze (c :: k) = [] ∨ ∃ d r, squeeze (c :: k) = d :: r ∧ isBlank d = true := by
  rw [squeeze_blank blank]
  split
  · exact .inr ⟨' ', squeeze k, rfl, rfl⟩
  · next notVisible =>
    cases h : squeeze k with
    | nil => exact .inl rfl
    | cons d r => exact .inr ⟨d, r, rfl, by simpa [h] using notVisible⟩

/-- What is squeezed to the same is so behind any other text. -/
lemma squeeze_append_congr (same : squeeze k = squeeze k') (s : List Char) :
    squeeze (s ++ k) = squeeze (s ++ k') := by
  induction s with
  | nil => exact same
  | cons c s ih => exact congrArg (squeezeCons c) ih

lemma squeeze_gap (blank : ∀ c ∈ gap, isBlank c = true) (nonempty : gap ≠ []) (k : List Char) :
    squeeze (gap ++ k) = squeeze (' ' :: k) := by
  have space : isBlank ' ' = true := rfl
  induction gap with
  | nil => exact absurd rfl nonempty
  | cons c gap ih =>
    obtain ⟨first, others⟩ := List.forall_mem_cons.1 blank
    rw [List.cons_append, squeeze_blank first, squeeze_blank space]
    cases gap with
    | nil => rfl
    | cons d gap =>
      rw [ih others (List.cons_ne_nil _ _), squeeze_blank space]
      by_cases seen : (squeeze k).head?.any (fun d => !isBlank d) = true
      · simp [seen, space]
      · simp [seen]

lemma squeeze_blanks (blank : ∀ c ∈ gap, isBlank c = true) : squeeze gap = [] := by
  cases gap with
  | nil => rfl
  | cons c gap =>
    have one := squeeze_gap blank (List.cons_ne_nil _ _) []
    rwa [List.append_nil] at one

lemma isPrefix_squeeze (visible : ∀ c ∈ m, isBlank c = false) : m <+: squeeze k ↔ m <+: k := by
  induction m generalizing k with
  | nil => simp
  | cons c m ih =>
    obtain ⟨first, others⟩ := List.forall_mem_cons.1 visible
    have apart : ∀ {d r}, isBlank d = true → ¬c :: m <+: d :: r := by
      intro d r blank atHead
      obtain ⟨rfl, -⟩ := List.cons_prefix_cons.1 atHead
      rw [blank] at first
      cases first
    cases k with
    | nil => rfl
    | cons d k =>
      by_cases blank : isBlank d = true
      · refine iff_of_false (fun atHead => ?_) (apart blank)
        rcases squeeze_blank_cases blank k with none | ⟨e, r, starts, blank'⟩
        · rw [none] at atHead
          exact absurd (List.prefix_nil.1 atHead) (List.cons_ne_nil _ _)
        · exact apart blank' (starts ▸ atHead)
      · rw [Bool.not_eq_true] at blank
        rw [squeeze_visible blank, List.cons_prefix_cons, List.cons_prefix_cons, ih others]

/-- Texts that are squeezed to the same start alike, up to the first blank. -/
lemma isPrefix_of_squeeze (same : squeeze k = squeeze k')
    (visible : ∀ c ∈ m, isBlank c = false) : m <+: k ↔ m <+: k' := by
  rw [← isPrefix_squeeze visible, same, isPrefix_squeeze visible]

/-- The next character that is no blank is found squeezed as well. -/
lemma head?_dropWhile_squeeze (k : List Char) :
    ((squeeze k).dropWhile isBlank).head? = (k.dropWhile isBlank).head? := by
  induction k with
  | nil => rfl
  | cons c k ih =>
    by_cases blank : isBlank c = true
    · rw [List.dropWhile_cons_of_pos blank, squeeze_blank blank, ← ih]
      split
      · rw [List.dropWhile_cons_of_pos rfl]
      · rfl
    · have visible : isBlank c = false := by simpa using blank
      rw [squeeze_visible visible, List.dropWhile_cons_of_neg blank,
        List.dropWhile_cons_of_neg blank]
      rfl

end Squeeze

/-! ## Readers that look far ahead -/

section Readers

variable {quote c : Char} {p : Char → Bool} {k k' : List Char}

lemma notBlank_of_class (apart : [' ', '\t', '\r', '\n'].any p = false) (member : p c = true) :
    isBlank c = false := by
  by_contra blank
  rw [Bool.not_eq_false] at blank
  have mem : c ∈ [' ', '\t', '\r', '\n'] := by simpa [isBlank, or_assoc] using blank
  exact List.any_eq_false.1 apart c mem member

lemma startsCodePoint_squeeze (k : List Char) :
    startsCodePoint (squeeze k) = startsCodePoint k := by
  have atHead : ∀ {cs : List Char}, startsCodePoint cs = true ↔
      ∃ u, u <+: cs ∧ '\\' :: u ∈ codePoint := by
    intro cs
    rw [startsCodePoint_iff]
    constructor
    · rintro ⟨u, v, rfl, member⟩
      exact ⟨u, List.prefix_append u v, member⟩
    · rintro ⟨u, ⟨v, rfl⟩, member⟩
      exact ⟨u, v, rfl, member⟩
  rw [Bool.eq_iff_iff, atHead, atHead]
  refine exists_congr fun u => and_congr_left fun member => ?_
  obtain ⟨_, split, -, parts⟩ := mem_codePoint member
  obtain ⟨-, rfl⟩ := List.cons.inj split
  exact isPrefix_squeeze fun c mem => notBlank_of_class (by decide) (parts c mem)

lemma startsEscape_iff {cs : List Char} : startsEscape cs = true ↔
    (∃ e, [e] <+: cs ∧ stringEscapes.contains e = true) ∨ startsCodePoint cs = true := by
  cases cs with
  | nil => simp [startsEscape, startsCodePoint]
  | cons d cs =>
    rw [startsEscape, Bool.or_eq_true]
    simp

lemma startsEscape_squeeze (k : List Char) : startsEscape (squeeze k) = startsEscape k := by
  rw [Bool.eq_iff_iff, startsEscape_iff, startsEscape_iff, startsCodePoint_squeeze]
  refine or_congr_left (exists_congr fun e => and_congr_left fun admitted => ?_)
  exact isPrefix_squeeze (by simpa using notBlank_of_class (by decide) admitted)

lemma isBlank_of_startsEscape {e : Char} {cs : List Char}
    (escape : startsEscape (e :: cs) = true) : isBlank e = false := by
  rcases Bool.or_eq_true_iff.1 escape with plain | codePoint
  · exact notBlank_of_class (by decide) plain
  · rcases startsCodePoint_cons codePoint with ⟨rfl, -⟩ | ⟨rfl, -⟩ <;> rfl

lemma take_marks_squeeze (isMark : isQuote quote = true) (n : Nat) (k : List Char) :
    (squeeze k).take n = List.replicate n quote ↔ k.take n = List.replicate n quote := by
  have visible : isBlank quote = false := notBlank_of_class (by decide) isMark
  have marks : ∀ {cs : List Char},
      cs.take n = List.replicate n quote ↔ List.replicate n quote <+: cs := by
    intro cs
    rw [List.prefix_iff_eq_take, List.length_replicate]
    exact eq_comm
  rw [marks, marks, isPrefix_squeeze fun c mem => List.eq_of_mem_replicate mem ▸ visible]

lemma longBody_backslash {cs : List Char} (noEscape : startsEscape cs = false) :
    longBody quote ('\\' :: cs) = none := by
  cases cs with
  | nil => simp [longBody]
  | cons e cs => rw [longBody, if_neg (by simp [noEscape])]

/-- Whether a long body comes to its end does not depend on the blanks in it. -/
lemma longBody_squeeze (isMark : isQuote quote = true) (k : List Char) :
    (longBody quote (squeeze k)).isSome = (longBody quote k).isSome := by
  have backslash : isBlank '\\' = false := rfl
  have visible : isBlank quote = false := notBlank_of_class (by decide) isMark
  have closes := take_marks_squeeze isMark 2
  simp only [List.replicate] at closes
  fun_induction longBody quote k with
  | case1 => rfl
  | case2 e cs escape ih =>
    have notBlank := isBlank_of_startsEscape escape
    have escape' : startsEscape (e :: squeeze cs) = true := by
      rw [← squeeze_visible notBlank, startsEscape_squeeze, escape]
    rw [squeeze_visible backslash, squeeze_visible notBlank, longBody_escape escape',
      Option.isSome_map, Option.isSome_map, ih]
  | case3 e cs noEscape =>
    have noEscape' : startsEscape (squeeze (e :: cs)) = false := by
      rw [startsEscape_squeeze]
      simpa using noEscape
    rw [squeeze_visible backslash, longBody_backslash noEscape']
  | case4 c cs lone isBackslash =>
    obtain rfl : c = '\\' := by simpa using isBackslash
    cases cs with
    | nil => rw [squeeze_visible backslash, squeeze_nil, longBody_backslash rfl]
    | cons e cs => exact absurd rfl (lone e cs rfl)
  | case5 c cs _ _ closing =>
    obtain ⟨rfl, marks⟩ : c = quote ∧ cs.take 2 = [quote, quote] := by simpa using closing
    rw [squeeze_visible visible, longBody_cons (ne_backslash_of_isQuote isMark),
      if_pos (by simp [closes, marks])]
  | case6 c cs _ plain notClosing ih =>
    rw [Option.isSome_map, ← ih]
    have notBackslash : c ≠ '\\' := by simpa using plain
    by_cases blank : isBlank c = true
    · rw [squeeze_blank blank]
      split
      · rw [longBody_cons (by decide), if_neg, Option.isSome_map]
        simp only [Bool.and_eq_true, beq_iff_eq, not_and]
        rintro rfl
        cases visible
      · rfl
    · rw [Bool.not_eq_true] at blank
      rw [squeeze_visible blank, longBody_cons notBackslash, if_neg, Option.isSome_map]
      simpa [closes] using notClosing

lemma longString?_squeeze (isMark : isQuote quote = true) (k : List Char) :
    (longString? quote (squeeze k)).isSome = (longString? quote k).isSome := by
  have visible : isBlank quote = false := notBlank_of_class (by decide) isMark
  have opens := take_marks_squeeze isMark 3 k
  simp only [List.replicate] at opens
  unfold longString?
  by_cases marks : k.take 3 = [quote, quote, quote]
  · have split : k = quote :: quote :: quote :: k.drop 3 := by
      conv_lhs => rw [← List.take_append_drop 3 k, marks]
      rfl
    have split' : (squeeze k).drop 3 = squeeze (k.drop 3) := by
      conv_lhs => rw [split]
      simp only [squeeze_visible visible, List.drop_succ_cons, List.drop_zero]
    rw [if_pos (by simp [opens, marks]), if_pos (by simp [marks]), Option.isSome_map,
      Option.isSome_map, split', longBody_squeeze isMark]
  · rw [if_neg (by simp [opens, marks]), if_neg (by simp [marks])]

end Readers

/-! ## Longer spellings -/

section Longer

variable {pointFirst : Bool} {quote : Char} {t : Token} {s m k k' : List Char}

/-- Blanks stand in a spelling only within empty brackets and within strings. -/
lemma Spells.visible_or (h : Spells pointFirst t s) (notComment : t.isComment = false) :
    (∀ c ∈ s, isBlank c = false) ∨
      (∃ blanks : List Char, (∀ c ∈ blanks, isBlank c = true) ∧
        (s = '(' :: (blanks ++ [')']) ∨ s = '[' :: (blanks ++ [']']))) ∨
      ∃ quote, isQuote quote = true ∧ string? quote s = some s := by
  have ofClass : ∀ {p : Char → Bool} {w : List Char}, [' ', '\t', '\r', '\n'].any p = false →
      (∀ c ∈ w, p c = true) → ∀ c ∈ w, isBlank c = false :=
    fun apart all c mem => notBlank_of_class apart (all c mem)
  cases h with
  | mark m => exact .inl (by cases m <;> simp [Mark.text, isBlank])
  | emptyParens blank => exact .inr (.inl ⟨_, blank, .inl rfl⟩)
  | emptyBrackets blank => exact .inr (.inl ⟨_, blank, .inr rfl⟩)
  | comment => cases notComment
  | string isMark found => exact .inr (.inr ⟨_, isMark, found⟩)
  | number found => exact .inl (ofClass (by decide) (number?_chars found))
  | language found =>
    exact .inl (List.forall_mem_cons.2 ⟨rfl, ofClass (by decide) (languageTag?_chars found)⟩)
  | var isSigil found =>
    refine .inl (List.forall_mem_cons.2 ⟨?_, ofClass (by decide) (variableName?_chars found)⟩)
    rcases isSigil with rfl | rfl <;> rfl
  | blankNode found =>
    have label := ofClass (by decide) (label?_chars found)
    exact .inl (List.forall_mem_cons.2 ⟨rfl, List.forall_mem_cons.2 ⟨rfl, label⟩⟩)
  | prefixed found => exact .inl (ofClass (by decide) (prefixedName?_chars found))
  | word found => exact .inl (ofClass (by decide) (word?_chars found).2)
  | iri found =>
    have body := ofClass (p := fun c => isIriChar c || c == '\\') (by decide) (iriBody?_chars found)
    exact .inl (List.forall_mem_cons.2 ⟨rfl, List.forall_mem_append.2 ⟨body, by simp [isBlank]⟩⟩)

/-- Brackets that are closed behind blanks are closed behind others as well. -/
lemma brackets_of_squeeze {opening closing : Char} {blanks : List Char}
    (visible : isBlank closing = false) (blank : ∀ c ∈ blanks, isBlank c = true)
    (split : s ++ m = opening :: (blanks ++ [closing])) (nonempty : s ≠ []) (more : m ≠ [])
    (ahead : m <+: k') (same : squeeze k = squeeze k') :
    ∃ blanks' m' : List Char, (∀ c ∈ blanks', isBlank c = true) ∧
      s ++ m' = opening :: (blanks' ++ [closing]) ∧ m' ≠ [] ∧ m' <+: k := by
  obtain ⟨c, s, rfl⟩ := List.exists_cons_of_ne_nil nonempty
  obtain ⟨m, d, rfl⟩ := (List.eq_nil_or_concat m).resolve_left more
  rw [List.concat_eq_append, List.cons_append, ← List.append_assoc] at split
  obtain ⟨rfl, inner⟩ := List.cons.inj split
  obtain ⟨rfl, last⟩ := List.append_inj' inner rfl
  obtain rfl := List.singleton_inj.1 last
  obtain ⟨blanks, behind⟩ := List.forall_mem_append.1 blank
  obtain ⟨r, rfl⟩ := ahead
  -- the bracket is the next character that is no blank, in either text
  have next : ((m.concat d ++ r).dropWhile isBlank).head? = some d := by
    rw [List.concat_eq_append, List.append_assoc, List.singleton_append,
      dropWhile_append_stop behind (by simp [visible])]
    rfl
  rw [← head?_dropWhile_squeeze, ← same, head?_dropWhile_squeeze] at next
  obtain ⟨r', rest⟩ := List.head?_eq_some_iff.1 next
  refine ⟨s ++ k.takeWhile isBlank, k.takeWhile isBlank ++ [d],
    List.forall_mem_append.2 ⟨blanks, fun c => of_mem_takeWhile⟩, by simp, by simp, r', ?_⟩
  rw [List.append_assoc, List.singleton_append, ← rest, List.takeWhile_append_dropWhile]

/-- The empty string is the start of a long one no matter which blanks that one holds. -/
lemma string_of_squeeze (isMark : isQuote quote = true) (found : string? quote s = some s)
    (longer : string? quote (s ++ m) = some (s ++ m)) (more : m ≠ []) (ahead : m <+: k')
    (same : squeeze k = squeeze k') :
    ∃ m', string? quote (s ++ m') = some (s ++ m') ∧ m' ≠ [] ∧ m' <+: k := by
  have notWhole : s ≠ s ++ m := fun eq => more (List.self_eq_append_right.1 eq)
  rcases string?_eq_some found with long | short
  · have again := longString?_complete isMark (longString?_mem isMark long) m
    rw [string?, again] at longer
    exact absurd (Option.some.inj longer) notWhole
  have again := shortString?_complete isMark (shortString?_mem isMark short) m
  rcases string?_eq_some longer with long' | short'
  · obtain ⟨rest, body, split, -⟩ := longString?_eq_some.1 long'
    have empty : s = [quote, quote] := by
      rw [split, shortString?_marks isMark] at again
      exact (Option.some.inj again).symm
    obtain ⟨r, rfl⟩ := ahead
    have isLong := longString?_complete isMark (longString?_mem isMark long') r
    have found' : (longString? quote (s ++ k)).isSome = true := by
      rw [← longString?_squeeze isMark, squeeze_append_congr same, ← List.append_assoc,
        longString?_squeeze isMark, isLong]
      rfl
    obtain ⟨source, found'⟩ := Option.isSome_iff_exists.1 found'
    have member := longString?_mem isMark found'
    obtain ⟨rest', body, split', ends, rfl⟩ := longString?_eq_some.1 found'
    subst empty
    obtain rfl : k = quote :: rest' := by simpa using split'
    refine ⟨quote :: body, ?_, List.cons_ne_nil _ _,
      List.cons_prefix_cons.2 ⟨rfl, (longBody_isPrefix ends).1⟩⟩
    have reread := longString?_complete isMark member []
    rw [List.append_nil] at reread
    exact congrArg (Option.or · _) reread
  · rw [again] at short'
    exact absurd (Option.some.inj short') notWhole

lemma Spells.string?_eq (h : Spells pointFirst t s) (notComment : t.isComment = false)
    (isMark : isQuote quote = true) (start : s.head? = some quote) :
    string? quote s = some s := by
  have read := first_of_spells h notComment (absorbs_nil t)
  obtain ⟨rest, rfl⟩ := List.head?_eq_some_iff.1 start
  rw [List.append_nil, first_quote pointFirst isMark, stringLiteral] at read
  split at read
  · next source found =>
    cases read
    exact found
  · cases read

/-- A spelling that goes on in a text goes on in every text that is squeezed to the same. -/
lemma Spells.exists_longer {t' : Token} (h : Spells pointFirst t s)
    (notComment : t.isComment = false) (longer : Spells pointFirst t' (s ++ m))
    (notComment' : t'.isComment = false) (more : m ≠ []) (ahead : m <+: k')
    (same : squeeze k = squeeze k') :
    ∃ t'' m', Spells pointFirst t'' (s ++ m') ∧ t''.isComment = false ∧ m' ≠ [] ∧ m' <+: k := by
  obtain ⟨c, cs, rfl, -⟩ := h.head
  have nonempty := List.cons_ne_nil c cs
  rcases longer.visible_or notComment' with visible | ⟨blanks, blank, split⟩ | ⟨q, isMark, found⟩
  · have visible : ∀ d ∈ m, isBlank d = false := fun d mem =>
      visible d (List.mem_append_right _ mem)
    exact ⟨t', m, longer, notComment', more, (isPrefix_of_squeeze same visible).2 ahead⟩
  · rcases split with split | split
    · obtain ⟨blanks', m', blank', split', more', ahead'⟩ :=
        brackets_of_squeeze rfl blank split nonempty more ahead same
      refine ⟨.mark .emptyParens, m', ?_, rfl, more', ahead'⟩
      rw [split']
      exact .emptyParens blank'
    · obtain ⟨blanks', m', blank', split', more', ahead'⟩ :=
        brackets_of_squeeze rfl blank split nonempty more ahead same
      refine ⟨.mark .emptyBrackets, m', ?_, rfl, more', ahead'⟩
      rw [split']
      exact .emptyBrackets blank'
  · have start : (c :: cs).head? = some q := (string?_isPrefix isMark found).2
    obtain ⟨m', found', more', ahead'⟩ := string_of_squeeze isMark
      (h.string?_eq notComment isMark start) found more ahead same
    exact ⟨_, m', .string isMark found', rfl, more', ahead'⟩

/-- What a token is read as does not depend on the blanks that the text behind it holds, as long as
there are blanks in the same places. -/
theorem first_of_squeeze (read : first pointFirst (s ++ k) = .ok (t, s))
    (same : squeeze k = squeeze k') : first pointFirst (s ++ k') = .ok (t, s) := by
  obtain ⟨spelled, -, notComment, longest, whole⟩ := first_eq_ok.1 read
  refine first_eq_ok.2 ⟨spelled, List.prefix_append s k', notComment, ?_, fun verbal => ?_⟩
  · intro t' s' spelled' notComment' atHead
    by_contra longer
    rw [not_le] at longer
    obtain ⟨m, rfl⟩ := List.prefix_of_prefix_length_le (List.prefix_append s k') atHead longer.le
    have more : m ≠ [] := by
      rintro rfl
      simp at longer
    have ahead : m <+: k' := (List.prefix_append_right_inj s).1 atHead
    obtain ⟨t'', m', spelled'', notComment'', more', ahead'⟩ :=
      spelled.exists_longer notComment spelled' notComment' more ahead same
    have shorter := longest t'' _ spelled'' notComment'' ((List.prefix_append_right_inj s).2 ahead')
    rw [List.length_append] at shorter
    have := List.length_pos_iff.2 more'
    omega
  · have whole := whole verbal
    rw [List.drop_left] at whole ⊢
    cases k' with
    | nil => rfl
    | cons c k' =>
      by_contra goesOn
      have tail : isWordTail c = true := by simpa using goesOn
      have visible : isBlank c = false := notBlank_of_class (by decide) tail
      have atHead : [c] <+: k := (isPrefix_of_squeeze same (by simpa using visible)).2 (by simp)
      obtain ⟨r, rfl⟩ := atHead
      simp [tail] at whole

end Longer

end SparqlFormat
