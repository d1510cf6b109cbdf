import Mathlib.Tactic.Common
import Mathlib.Tactic.Lemma
import SparqlFormat.Lexeme.Name

/-!
# Names are read back

A recogniser of names looks at the text that follows a name only to see where the name ends. Two
facts about each of them say so: what it finds is at the head of the text (`…_isPrefix`), and what
it found is found again in front of any other text that cannot go on with it (`…_reread`).

The classes `isDottedChar` and `isLocalChar` say which characters go on with a name; a text that
is empty or starts with another character ends it.
-/

namespace SparqlFormat.Lexeme

/-! ## Runs of a class -/

/-- A run of a class is found again in front of a text that does not go on with it. -/
lemma takeWhile_append_stop {α : Type} {p : α → Bool} {w k : List α} (all : ∀ c ∈ w, p c = true)
    (stop : k.head?.any p = false) : (w ++ k).takeWhile p = w := by
  rw [List.takeWhile_append_of_pos all]
  cases k with
  | nil => simp
  | cons c k => simp_all

/-- What is left after the run is the text put there. -/
lemma dropWhile_append_stop {α : Type} {p : α → Bool} {w k : List α} (all : ∀ c ∈ w, p c = true)
    (stop : k.head?.any p = false) : (w ++ k).dropWhile p = k := by
  rw [List.dropWhile_append_of_pos all]
  cases k with
  | nil => simp
  | cons c k => simp_all

/-- The characters of a leading run are all of its class. -/
lemma of_mem_takeWhile {p : Char → Bool} {cs : List Char} {c : Char} (h : c ∈ cs.takeWhile p) :
    p c = true :=
  List.all_eq_true.1 List.all_takeWhile c h

/-- A text that does not start with a class does not start with a part of it. -/
lemma head?_any_mono {p q : Char → Bool} {k : List Char} (imp : ∀ c, p c = true → q c = true)
    (stop : k.head?.any q = false) : k.head?.any p = false := by
  cases k with
  | nil => rfl
  | cons c k =>
    simp only [List.head?_cons, Option.any_some] at stop ⊢
    by_contra h
    have hp : p c = true := by simpa using h
    rw [imp c hp] at stop
    contradiction

/-! ## Prefixes and labels -/

/-- A character that goes on with a prefix or a label. -/
def isDottedChar (c : Char) : Bool :=
  isNameTail c || c == '.'

lemma dotted_eq_nil {k : List Char} (stop : k.head?.any isDottedChar = false) :
    dotted k = [] := by
  cases k with
  | nil => rfl
  | cons c k => simp_all [dotted, isDottedChar]

lemma dotted_isPrefix (cs : List Char) : dotted cs <+: cs := by
  fun_induction dotted cs with
  | case1 => exact List.prefix_rfl
  | case2 c cs tail ih => exact List.cons_prefix_cons.2 ⟨rfl, ih⟩
  | case3 => exact List.nil_prefix
  | case4 c cs notTail dot run ih => exact List.cons_prefix_cons.2 ⟨rfl, ih⟩
  | case5 => exact List.nil_prefix

lemma dotted_reread (cs : List Char) {k : List Char} (stop : k.head?.any isDottedChar = false) :
    dotted (dotted cs ++ k) = dotted cs := by
  fun_induction dotted cs with
  | case1 => exact dotted_eq_nil stop
  | case2 c cs tail ih => simp [dotted, tail, ih]
  | case3 => exact dotted_eq_nil stop
  | case4 c cs notTail dot run ih => simp_all [dotted]
  | case5 => exact dotted_eq_nil stop

lemma dotted_chars (cs : List Char) : ∀ c ∈ dotted cs, isDottedChar c = true := by
  fun_induction dotted cs with
  | case1 => simp
  | case2 c cs tail ih => exact List.forall_mem_cons.2 ⟨by simp [isDottedChar, tail], ih⟩
  | case3 => simp
  | case4 c cs _ point _ ih =>
    exact List.forall_mem_cons.2 ⟨by simp [isDottedChar, point], ih⟩
  | case5 => simp

lemma label?_isPrefix {cs label : List Char} (h : label? cs = some label) : label <+: cs := by
  cases cs with
  | nil => simp [label?] at h
  | cons c cs =>
    simp only [label?, Option.ite_none_right_eq_some, Option.some.injEq] at h
    obtain ⟨-, rfl⟩ := h
    exact List.cons_prefix_cons.2 ⟨rfl, dotted_isPrefix cs⟩

lemma label?_chars {cs label : List Char} (h : label? cs = some label) :
    ∀ c ∈ label, isDottedChar c = true := by
  cases cs with
  | nil => simp [label?] at h
  | cons c cs =>
    simp only [label?, Option.ite_none_right_eq_some, Option.some.injEq] at h
    obtain ⟨start, rfl⟩ := h
    refine List.forall_mem_cons.2 ⟨?_, dotted_chars cs⟩
    simp [isDottedChar, isNameTail, isVariableTail, start]

lemma label?_reread {cs label k : List Char} (h : label? cs = some label)
    (stop : k.head?.any isDottedChar = false) : label? (label ++ k) = some label := by
  cases cs with
  | nil => simp [label?] at h
  | cons c cs =>
    simp only [label?, Option.ite_none_right_eq_some, Option.some.injEq] at h
    obtain ⟨start, rfl⟩ := h
    simp [label?, start, dotted_reread cs stop]

/-! ## Local names -/

/-- A character that goes on with a local name. -/
def isLocalChar (c : Char) : Bool :=
  isDottedChar c || c == ':' || c == '%' || c == '\\'

/-- A character that stands for itself in a local name is kept. -/
lemma localTail_cons_of_plain {c : Char} (plain : (isNameTail c || c == ':') = true)
    (cs : List Char) : localTail (c :: cs) = c :: localTail cs := by
  have notPercent : c ≠ '%' := by rintro rfl; revert plain; decide
  have notBackslash : c ≠ '\\' := by rintro rfl; revert plain; decide
  rw [localTail]
  · exact if_pos plain
  · intro h l cs e
    exact absurd e notPercent
  · intro e cs e'
    exact absurd e' notBackslash

/-- A dot is kept in front of what goes on. -/
lemma localTail_cons_of_dot {cs : List Char} (goesOn : localTail cs ≠ []) :
    localTail ('.' :: cs) = '.' :: localTail cs := by
  rw [localTail]
  · split
    · rfl
    · cases h : localTail cs with
      | nil => exact absurd h goesOn
      | cons c run => simp
  all_goals simp

lemma localTail_eq_nil {k : List Char} (stop : k.head?.any isLocalChar = false) :
    localTail k = [] := by
  cases k with
  | nil => rfl
  | cons c k =>
    simp only [List.head?_cons, Option.any_some, isLocalChar, isDottedChar, Bool.or_eq_false_iff,
      beq_eq_false_iff_ne] at stop
    obtain ⟨⟨⟨⟨tail, dot⟩, colon⟩, percent⟩, backslash⟩ := stop
    rw [localTail]
    · simp [tail, dot, colon]
    · intro h l cs e
      exact absurd e percent
    · intro e cs e'
      exact absurd e' backslash

lemma localTail_isPrefix (cs : List Char) : localTail cs <+: cs := by
  fun_induction localTail cs with
  | case1 => exact List.prefix_rfl
  | case2 h l cs digits ih => simpa using ih
  | case3 => exact List.nil_prefix
  | case4 e cs mem ih => simpa using ih
  | case5 => exact List.nil_prefix
  | case6 c cs _ _ plain ih => exact List.cons_prefix_cons.2 ⟨rfl, ih⟩
  | case7 => exact List.nil_prefix
  | case8 c cs _ _ notPlain dot run ih => exact List.cons_prefix_cons.2 ⟨rfl, ih⟩
  | case9 => exact List.nil_prefix

lemma localTail_reread (cs : List Char) {k : List Char}
    (stop : k.head?.any isLocalChar = false) : localTail (localTail cs ++ k) = localTail cs := by
  fun_induction localTail cs with
  | case1 => exact localTail_eq_nil stop
  | case2 h l cs digits ih => simp [localTail, digits, ih]
  | case3 => exact localTail_eq_nil stop
  | case4 e cs mem ih => simp only [List.cons_append, localTail, mem, if_true, ih]
  | case5 => exact localTail_eq_nil stop
  | case6 c cs _ _ plain ih =>
    rw [List.cons_append, localTail_cons_of_plain plain, ih]
  | case7 => exact localTail_eq_nil stop
  | case8 c cs _ _ notPlain dot run ih =>
    obtain rfl : c = '.' := by simpa using dot
    rw [List.cons_append, localTail_cons_of_dot (by rw [ih]; exact run), ih]
  | case9 => exact localTail_eq_nil stop

lemma localName_isPrefix (cs : List Char) : localName cs <+: cs := by
  fun_cases localName cs with
  | case1 => exact List.prefix_rfl
  | case2 cs => exact localTail_isPrefix _
  | case3 cs => exact localTail_isPrefix _
  | case4 c cs _ _ start => exact List.cons_prefix_cons.2 ⟨rfl, localTail_isPrefix cs⟩
  | case5 => exact List.nil_prefix

lemma localName_eq_nil {k : List Char} (stop : k.head?.any isLocalChar = false) :
    localName k = [] := by
  cases k with
  | nil => rfl
  | cons c k =>
    simp only [List.head?_cons, Option.any_some, isLocalChar, isDottedChar, Bool.or_eq_false_iff,
      beq_eq_false_iff_ne] at stop
    obtain ⟨⟨⟨⟨tail, dot⟩, colon⟩, percent⟩, backslash⟩ := stop
    have start : isLabelStart c = false := by
      simp only [isNameTail, isVariableTail, Bool.or_eq_false_iff] at tail
      exact tail.1.1
    rw [localName]
    · simp [start, colon]
    · exact percent
    · exact backslash

lemma localName_reread (cs : List Char) {k : List Char}
    (stop : k.head?.any isLocalChar = false) : localName (localName cs ++ k) = localName cs := by
  -- a local name that starts with an escape is a local tail, and so is all of it read again
  have escaped : ∀ c, (c = '%' ∨ c = '\\') →
      localName (localTail (c :: cs.tail) ++ k) = localTail (c :: cs.tail) := by
    intro c hc
    have prefixed := localTail_isPrefix (c :: cs.tail)
    have reread := localTail_reread (c :: cs.tail) stop
    cases h : localTail (c :: cs.tail) with
    | nil => simpa using localName_eq_nil stop
    | cons d ds =>
      rw [h] at prefixed reread
      obtain ⟨rfl, -⟩ := List.cons_prefix_cons.1 prefixed
      rcases hc with rfl | rfl <;> simpa [localName] using reread
  fun_cases localName cs with
  | case1 => exact localName_eq_nil stop
  | case2 cs => exact escaped '%' (.inl rfl)
  | case3 cs => exact escaped '\\' (.inr rfl)
  | case4 c cs notPercent notBackslash start =>
    rw [List.cons_append, localName]
    · rw [if_pos start, localTail_reread cs stop]
    · exact notPercent
    · exact notBackslash
  | case5 => exact localName_eq_nil stop

/-- A character of a local name, be it on its own or in an escape. -/
def isLocalNameChar (c : Char) : Bool :=
  isLocalChar c || isHex c || localEscapes.contains c

lemma localTail_chars (cs : List Char) : ∀ c ∈ localTail cs, isLocalNameChar c = true := by
  have digit : ∀ {c}, isHex c = true → isLocalNameChar c = true := fun h => by
    simp [isLocalNameChar, h]
  fun_induction localTail cs with
  | case2 h l cs digits ih =>
    obtain ⟨high, low⟩ := Bool.and_eq_true_iff.1 digits
    exact List.forall_mem_cons.2
      ⟨by decide, List.forall_mem_cons.2 ⟨digit high, List.forall_mem_cons.2 ⟨digit low, ih⟩⟩⟩
  | case4 e cs admitted ih =>
    exact List.forall_mem_cons.2
      ⟨by decide, List.forall_mem_cons.2 ⟨by rw [isLocalNameChar, admitted, Bool.or_true], ih⟩⟩
  | case6 c cs _ _ plain ih =>
    refine List.forall_mem_cons.2 ⟨?_, ih⟩
    rcases Bool.or_eq_true_iff.1 plain with tail | colon
    · simp [isLocalNameChar, isLocalChar, isDottedChar, tail]
    · simp [isLocalNameChar, isLocalChar, colon]
  | case8 c cs _ _ _ point _ ih =>
    obtain rfl : c = '.' := by simpa using point
    exact List.forall_mem_cons.2 ⟨by decide, ih⟩
  | _ => exact List.forall_mem_nil _

lemma localName_chars (cs : List Char) : ∀ c ∈ localName cs, isLocalNameChar c = true := by
  fun_cases localName cs with
  | case2 => exact localTail_chars _
  | case3 => exact localTail_chars _
  | case4 c cs _ _ start =>
    refine List.forall_mem_cons.2 ⟨?_, localTail_chars cs⟩
    rcases Bool.or_eq_true_iff.1 start with label | colon
    · simp [isLocalNameChar, isLocalChar, isDottedChar, isNameTail, isVariableTail, label]
    · simp [isLocalNameChar, isLocalChar, colon]
  | _ => exact List.forall_mem_nil _

/-! ## Prefixed names -/

/-- A prefix that is not empty starts with a letter. -/
lemma isNameBase_of_isPrefixPart {c : Char} {run : List Char}
    (h : isPrefixPart (c :: run) = true) : isNameBase c = true := by
  rw [isPrefixPart, List.head?_cons, List.getLast?_cons] at h
  simp only [Bool.and_eq_true] at h
  exact h.1

/-- A prefixed name is a prefix, a colon and a local name. -/
lemma prefixedName?_eq_some {cs name : List Char} :
    prefixedName? cs = some name ↔
      ∃ run rest, cs = run ++ ':' :: rest ∧ (∀ c ∈ run, isDottedChar c = true) ∧
        isPrefixPart run = true ∧ name = run ++ ':' :: localName rest := by
  have colon : isDottedChar ':' = false := by decide
  constructor
  · intro h
    simp only [prefixedName?] at h
    split at h
    · next rest hdrop =>
      simp only [Option.ite_none_right_eq_some, Option.some.injEq] at h
      refine ⟨cs.takeWhile isDottedChar, rest, ?_, fun c => of_mem_takeWhile, h.1, h.2.symm⟩
      conv_lhs => rw [← List.takeWhile_append_dropWhile (p := isDottedChar) (l := cs)]
      exact congrArg _ hdrop
    · simp at h
  · rintro ⟨run, rest, rfl, all, isPrefix, rfl⟩
    have hstop : (':' :: rest).head?.any isDottedChar = false := colon
    have htake := takeWhile_append_stop all hstop
    have hdrop := dropWhile_append_stop all hstop
    unfold isDottedChar at htake hdrop
    simp only [prefixedName?, htake, hdrop, isPrefix, if_true]

lemma prefixedName?_isPrefix {cs name : List Char} (h : prefixedName? cs = some name) :
    name <+: cs := by
  obtain ⟨run, rest, rfl, -, -, rfl⟩ := prefixedName?_eq_some.1 h
  exact (List.prefix_append_right_inj run).2
    (List.cons_prefix_cons.2 ⟨rfl, localName_isPrefix rest⟩)

lemma prefixedName?_reread {cs name k : List Char} (h : prefixedName? cs = some name)
    (stop : k.head?.any isLocalChar = false) : prefixedName? (name ++ k) = some name := by
  obtain ⟨run, rest, -, all, isPrefix, rfl⟩ := prefixedName?_eq_some.1 h
  refine prefixedName?_eq_some.2 ⟨run, localName rest ++ k, by simp, all, isPrefix, ?_⟩
  rw [localName_reread rest stop]

lemma prefixedName?_chars {cs name : List Char} (h : prefixedName? cs = some name) :
    ∀ c ∈ name, isLocalNameChar c = true := by
  obtain ⟨run, rest, -, all, -, rfl⟩ := prefixedName?_eq_some.1 h
  have prefixChars : ∀ c ∈ run, isLocalNameChar c = true := fun c mem => by
    simp [isLocalNameChar, isLocalChar, all c mem]
  exact List.forall_mem_append.2
    ⟨prefixChars, List.forall_mem_cons.2 ⟨by decide, localName_chars rest⟩⟩

/-- There is no prefixed name where no colon follows the run. -/
lemma prefixedName?_eq_none {w k : List Char} (all : ∀ c ∈ w, isDottedChar c = true)
    (stop : k.head?.any (fun c => isDottedChar c || c == ':') = false) :
    prefixedName? (w ++ k) = none := by
  rw [Option.eq_none_iff_forall_not_mem]
  intro name mem
  obtain ⟨run, rest, split, allRun, -, -⟩ := prefixedName?_eq_some.1 mem
  have drop := dropWhile_append_stop all (head?_any_mono (by simp_all) stop)
  rw [split, dropWhile_append_stop allRun rfl] at drop
  subst drop
  simp at stop

/-! ## Variables, language tags and words -/

lemma variableName?_isPrefix {cs name : List Char} (h : variableName? cs = some name) :
    name <+: cs := by
  cases cs with
  | nil => simp [variableName?] at h
  | cons c cs =>
    simp only [variableName?, Option.ite_none_right_eq_some, Option.some.injEq] at h
    obtain ⟨-, rfl⟩ := h
    exact List.cons_prefix_cons.2 ⟨rfl, List.takeWhile_prefix _⟩

lemma variableName?_chars {cs name : List Char} (h : variableName? cs = some name) :
    ∀ c ∈ name, isVariableTail c = true := by
  cases cs with
  | nil => simp [variableName?] at h
  | cons c cs =>
    simp only [variableName?, Option.ite_none_right_eq_some, Option.some.injEq] at h
    obtain ⟨start, rfl⟩ := h
    exact List.forall_mem_cons.2 ⟨by simp [isVariableTail, start], fun d => of_mem_takeWhile⟩

lemma variableName?_reread {cs name k : List Char} (h : variableName? cs = some name)
    (stop : k.head?.any isVariableTail = false) : variableName? (name ++ k) = some name := by
  cases cs with
  | nil => simp [variableName?] at h
  | cons c cs =>
    simp only [variableName?, Option.ite_none_right_eq_some, Option.some.injEq] at h
    obtain ⟨start, rfl⟩ := h
    simp [variableName?, start, takeWhile_append_stop (fun c => of_mem_takeWhile) stop]

lemma word?_isPrefix {cs w : List Char} (h : word? cs = some w) : w <+: cs := by
  cases cs with
  | nil => simp [word?] at h
  | cons c cs =>
    simp only [word?, Option.ite_none_right_eq_some, Option.some.injEq] at h
    obtain ⟨-, rfl⟩ := h
    exact List.cons_prefix_cons.2 ⟨rfl, List.takeWhile_prefix _⟩

lemma word?_reread {cs w k : List Char} (h : word? cs = some w)
    (stop : k.head?.any isWordTail = false) : word? (w ++ k) = some w := by
  cases cs with
  | nil => simp [word?] at h
  | cons c cs =>
    simp only [word?, Option.ite_none_right_eq_some, Option.some.injEq] at h
    obtain ⟨start, rfl⟩ := h
    simp [word?, start, takeWhile_append_stop (fun c => of_mem_takeWhile) stop]

/-- A character that goes on with a language tag. -/
def isTagChar (c : Char) : Bool :=
  isLetterOrDigit c || c == '-'

lemma subtags_eq_nil {k : List Char} (stop : k.head?.any isTagChar = false) :
    subtags k = [] := by
  cases k with
  | nil => rfl
  | cons c k => simp_all [subtags, isTagChar]

lemma subtags_isPrefix (cs : List Char) : subtags cs <+: cs := by
  fun_induction subtags cs with
  | case1 => exact List.prefix_rfl
  | case2 c cs member ih => exact List.cons_prefix_cons.2 ⟨rfl, ih⟩
  | case3 c cs notMember hyphen ih => exact List.cons_prefix_cons.2 ⟨rfl, ih⟩
  | case4 => exact List.nil_prefix

lemma subtags_reread (cs : List Char) {k : List Char} (stop : k.head?.any isTagChar = false) :
    subtags (subtags cs ++ k) = subtags cs := by
  fun_induction subtags cs with
  | case1 => exact subtags_eq_nil stop
  | case2 c cs member ih => simp [subtags, member, ih]
  | case3 c cs notMember hyphen ih =>
    -- the hyphen counts because a letter or digit follows, which is then part of the subtags
    have kept : ((subtags cs ++ k).head?.map isLetterOrDigit).getD false = true := by
      cases cs with
      | nil => simp at hyphen
      | cons d ds =>
        have member : isLetterOrDigit d = true := by
          simp only [Bool.and_eq_true] at hyphen
          exact hyphen.2
        simp [subtags, member]
    have isHyphen : (c == '-') = true := by
      simp only [Bool.and_eq_true] at hyphen
      exact hyphen.1
    rw [List.cons_append, subtags, if_neg notMember, isHyphen, kept, ih]
    rfl
  | case4 => exact subtags_eq_nil stop

/-- A language tag is a run of letters and the subtags after it. -/
lemma subtags_chars (cs : List Char) : ∀ c ∈ subtags cs, isTagChar c = true := by
  fun_induction subtags cs with
  | case1 => simp
  | case2 c cs letter ih => exact List.forall_mem_cons.2 ⟨by simp [isTagChar, letter], ih⟩
  | case3 c cs _ hyphen ih =>
    simp only [Bool.and_eq_true] at hyphen
    exact List.forall_mem_cons.2 ⟨by simp [isTagChar, hyphen.1], ih⟩
  | case4 => simp

lemma languageTag?_eq_some {cs tag : List Char} :
    languageTag? cs = some tag ↔
      cs.takeWhile isLetter ≠ [] ∧
        tag = cs.takeWhile isLetter ++
          if (cs.dropWhile isLetter).head? = some '-' then subtags (cs.dropWhile isLetter)
          else [] := by
  unfold languageTag?
  split
  · next h => simp [h]
  · next h =>
    rw [Option.some.injEq]
    exact ⟨fun e => ⟨h, e.symm⟩, fun e => e.2.symm⟩

lemma languageTag?_isPrefix {cs tag : List Char} (h : languageTag? cs = some tag) :
    tag <+: cs := by
  obtain ⟨-, rfl⟩ := languageTag?_eq_some.1 h
  conv_rhs => rw [← List.takeWhile_append_dropWhile (p := isLetter) (l := cs)]
  refine (List.prefix_append_right_inj _).2 ?_
  split
  · exact subtags_isPrefix _
  · exact List.nil_prefix

lemma languageTag?_chars {cs tag : List Char} (h : languageTag? cs = some tag) :
    ∀ c ∈ tag, isTagChar c = true := by
  obtain ⟨-, rfl⟩ := languageTag?_eq_some.1 h
  refine List.forall_mem_append.2 ⟨fun c mem => ?_, ?_⟩
  · simp [isTagChar, isLetterOrDigit, of_mem_takeWhile mem]
  · split
    · exact subtags_chars _
    · simp

lemma languageTag?_reread {cs tag k : List Char} (h : languageTag? cs = some tag)
    (stop : k.head?.any isTagChar = false) : languageTag? (tag ++ k) = some tag := by
  obtain ⟨primary, rfl⟩ := languageTag?_eq_some.1 h
  set rest := cs.dropWhile isLetter with hrest
  -- the part after the letters starts with a hyphen, if it is there at all
  have tail : ∃ sub, (if rest.head? = some '-' then subtags rest else []) = sub ∧
      subtags (sub ++ k) = sub ∧ (sub ≠ [] → sub.head? = some '-') := by
    refine ⟨_, rfl, ?_⟩
    split
    · next hyphen =>
      refine ⟨subtags_reread rest stop, fun nonempty => ?_⟩
      have prefixed := subtags_isPrefix rest
      cases hsub : subtags rest with
      | nil => exact absurd hsub nonempty
      | cons d ds =>
        obtain ⟨more, hmore⟩ := hsub ▸ prefixed
        rw [← hmore] at hyphen
        simpa using hyphen
    · exact ⟨subtags_eq_nil stop, fun nonempty => absurd rfl nonempty⟩
  obtain ⟨sub, hsub, reread, hyphen⟩ := tail
  rw [hsub]
  have hstop : (sub ++ k).head?.any isLetter = false := by
    cases sub with
    | nil => exact head?_any_mono (by intro c; simp +contextual [isTagChar, isLetterOrDigit]) stop
    | cons d ds =>
      obtain rfl : d = '-' := by simpa using hyphen (by simp)
      rfl
  have all : ∀ c ∈ cs.takeWhile isLetter, isLetter c = true := fun c => of_mem_takeWhile
  rw [List.append_assoc, languageTag?_eq_some, takeWhile_append_stop all hstop,
    dropWhile_append_stop all hstop]
  refine ⟨primary, ?_⟩
  congr 1
  cases sub with
  | nil =>
    split
    · exact reread.symm
    · rfl
  | cons d ds =>
    obtain rfl : d = '-' := by simpa using hyphen (by simp)
    rw [if_pos (by simp)]
    exact reread.symm

end SparqlFormat.Lexeme
