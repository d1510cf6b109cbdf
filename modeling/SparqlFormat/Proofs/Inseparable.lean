import SparqlFormat.Proofs.Places

/-!
# Tokens that belong together

A string and its language tag, a type and the sign in front of it, the steps of a property path, a
function and its arguments: neighbours like these are one thing to a reader, and some of them are
no longer read as what they were once white space parts them. `Inseparable` lists them, and
`layouts_keep_together` says that neither layout ever parts them, whatever stands around them.

Three things can part two neighbours: the gap that the left one leaves, the line that the right one
starts, and the line broken behind a call. The first two are decided by rules that read the nesting
and look ahead, so they are settled for every nesting and every further token (`Inseparable.after`
and `Continues.leading`). The third depends on everything that stands before, but ends only at a
closing bracket, and none of the left neighbours is one (`Inseparable.not_closing`).
-/

namespace SparqlFormat.Layout

/-! ## The pairs -/

/-- The left token and the right one belong together. -/
inductive Inseparable : Token → Token → Prop
  /-- A string and its language. -/
  | language (source tag : List Char) : Inseparable (.string source) (.language tag)
  /-- A string and the sign in front of its type. -/
  | typed (source : List Char) : Inseparable (.string source) (.mark .typed)
  /-- The sign in front of a type and the name of the type. -/
  | type {name : Token} : name.isName = true → Inseparable (.mark .typed) name
  /-- A step of a path and how often it is taken, or the sign that joins it to the next one. -/
  | step {name : Token} {m : Mark} : name.isName = true →
      m ∈ [Mark.star, .plus, .question, .slash, .bar] → Inseparable name (.mark m)
  /-- How often a step is taken and the sign that joins it to the next one. -/
  | repeated {m : Mark} : m ∈ [Mark.star, .plus, .question] →
      Inseparable (.mark m) (.mark .slash)
  /-- A sign in front of a step of a path and the step. -/
  | sign {m : Mark} {name : Token} : m ∈ [Mark.slash, .caret, .bang, .bar] →
      name.isName = true → Inseparable (.mark m) name
  /-- A built-in function or an aggregate and its arguments. -/
  | builtIn {word : List Char} : word ∈ functionWords ∨ word ∈ aggregateWords →
      Inseparable (.keyword word) (.mark .openParen)
  /-- A function called by its prefixed name and its arguments. -/
  | called (name : List Char) : Inseparable (.prefixed name) (.mark .openParen)

/-! ## What the left neighbour leaves -/

/-- Whether a rule for the token itself comes before those that let it touch the next one. -/
def hasOwnRule (t : Token) : Bool :=
  t.isComment || t.isMark .openBrace || t.isMark .closeBrace || t.isMark .dot ||
    t.isMark .semicolon || t.isWord (modifiers ++ callWords)

/-- No rule breaks a line in front of such a token: it is neither a brace nor a word. -/
structure Continues (t : Token) : Prop where
  notOpen : t.isMark .openBrace = false
  notClose : t.isMark .closeBrace = false
  notWord : ∀ ws, t.isWord ws = false

section Rules

variable {left right : Token}

lemma isWord_mono {ws ws' : List (List Char)} (part : ws ⊆ ws') {t : Token}
    (h : t.isWord ws' = false) : t.isWord ws = false := by
  cases t with
  | keyword word =>
    rw [← Bool.not_eq_true] at h ⊢
    intro mem
    apply h
    exact List.contains_iff_mem.2 (part (List.contains_iff_mem.1 mem))
  | _ => rfl

/-- Neighbours that the rules let touch do touch, if no rule for the left one and none for a brace
or a word behind it comes first. -/
lemma spacing_of_touches {n : Nesting} (free : hasOwnRule left = false)
    (continues : Continues right) (touch : touches n left (some right) = true) :
    (spacing n left (some right)).after = .touch := by
  simp only [hasOwnRule, Bool.or_eq_false_iff] at free
  obtain ⟨⟨⟨⟨⟨notComment, notOpen⟩, notClose⟩, notDot⟩, notSemicolon⟩, notWord⟩ := free
  have notOrder : left.isWord (words ["ORDER"]) = false := isWord_mono (by decide) notWord
  have notModifier : left.isWord modifiers = false := isWord_mono (by simp) notWord
  have notCall : left.isWord callWords = false := isWord_mono (by simp) notWord
  have nextBrace : isNextMark .openBrace (some right) = false := continues.notOpen
  have nextWord : ∀ ws, isNextWord ws (some right) = false := continues.notWord
  rw [spacing]
  simp only [notComment, notOpen, notClose, notDot, notSemicolon, notOrder, notModifier, notCall,
    nextBrace, nextWord, touch, Bool.and_false, Bool.false_and, Bool.false_eq_true, if_false,
    if_true]
  split_ifs <;> rfl

/-- A negation touches whatever does not open a block. -/
lemma spacing_bang (n : Nesting) (continues : Continues right) :
    (spacing n (.mark .bang) (some right)).after = .touch := by
  have nextBrace : isNextMark .openBrace (some right) = false := continues.notOpen
  simp [spacing, nextBrace, Token.isComment, Token.isMark, Token.isWord, Spacing.inline]

lemma Continues.leading (continues : Continues right) (n : Nesting) (next : Option Token) :
    (spacing n right next).leading = none := by
  obtain ⟨notOpen, notClose, notWord⟩ := continues
  rw [spacing]
  simp only [notOpen, notClose, notWord, Bool.false_and, Bool.false_eq_true, if_false,
    Spacing.inline, apply_ite Spacing.leading, ite_self]

end Rules

/-! ## The rules for the pairs -/

section Pairs

variable {left right : Token} {m : Mark}

lemma continues_of_isName (isName : right.isName = true) : Continues right := by
  cases right with
  | iri | prefixed => exact ⟨rfl, rfl, fun _ => rfl⟩
  | _ => simp [Token.isName] at isName

lemma continues_mark (mem : m ∈ [Mark.star, .plus, .question, .slash, .bar]) :
    Continues (.mark m) where
  notOpen := by
    rw [← Bool.not_eq_true, Token.isMark_iff]
    rintro ⟨⟩
    simp at mem
  notClose := by
    rw [← Bool.not_eq_true, Token.isMark_iff]
    rintro ⟨⟩
    simp at mem
  notWord _ := rfl

lemma Inseparable.continues (h : Inseparable left right) : Continues right := by
  cases h with
  | language | typed | repeated | builtIn | called => exact ⟨rfl, rfl, fun _ => rfl⟩
  | type isName | sign _ isName => exact continues_of_isName isName
  | step _ mem => exact continues_mark mem

lemma hasOwnRule_of_isName (isName : left.isName = true) : hasOwnRule left = false := by
  cases left with
  | iri | prefixed => rfl
  | _ => simp [Token.isName] at isName

lemma hasOwnRule_applicable {word : List Char} (mem : word ∈ applicableWords) :
    hasOwnRule (.keyword word) = false := by
  have apart : applicableWords.all (fun w => !(modifiers ++ callWords).contains w) = true := by
    decide
  have apart := List.all_eq_true.1 apart word mem
  rwa [Bool.not_eq_true'] at apart

lemma mem_applicableWords {word : List Char}
    (h : word ∈ functionWords ∨ word ∈ aggregateWords) : word ∈ applicableWords := by
  rw [applicableWords, List.mem_append]
  exact h.symm

lemma Inseparable.hasOwnRule (h : Inseparable left right) : hasOwnRule left = false := by
  cases h with
  | language | typed | type | called => rfl
  | step isName => exact hasOwnRule_of_isName isName
  | repeated mem =>
    simp only [List.mem_cons, List.not_mem_nil, or_false] at mem
    rcases mem with rfl | rfl | rfl <;> rfl
  | sign mem =>
    simp only [List.mem_cons, List.not_mem_nil, or_false] at mem
    rcases mem with rfl | rfl | rfl | rfl <;> rfl
  | builtIn mem => exact hasOwnRule_applicable (mem_applicableWords mem)

/-- The rules let a pair touch at any nesting; the negation has its own rule for that. -/
lemma Inseparable.touches (h : Inseparable left right) (n : Nesting)
    (notBang : left ≠ .mark .bang) : touches n left (some right) = true := by
  cases h with
  | language | typed => simp [Layout.touches, isNextMark, Token.isMark, Token.isLanguage]
  | type => simp [Layout.touches, Token.isMark]
  | step isName mem =>
    simp only [List.mem_cons, List.not_mem_nil, or_false] at mem
    rcases mem with rfl | rfl | rfl | rfl | rfl <;>
      simp [Layout.touches, isName, isNextMark, isPathModifier, Token.isMark]
  | repeated mem =>
    simp only [List.mem_cons, List.not_mem_nil, or_false] at mem
    rcases mem with rfl | rfl | rfl <;>
      simp [Layout.touches, isNextMark, isPathModifier, Token.isMark]
  | sign mem isName =>
    simp only [List.mem_cons, List.not_mem_nil, or_false] at mem
    rcases mem with rfl | rfl | rfl | rfl
    · simp [Layout.touches, isNextName, isName, Token.isMark]
    · simp [Layout.touches, isNextName, isName, Token.isMark]
    · contradiction
    · simp [Layout.touches, Token.isMark]
  | builtIn mem =>
    simp [Layout.touches, isNextMark, isApplicable, Token.isMark, Token.isWord,
      mem_applicableWords mem]
  | called => simp [Layout.touches, isNextMark, isApplicable, Token.isMark]

lemma Inseparable.after (h : Inseparable left right) (n : Nesting) :
    (spacing n left (some right)).after = .touch := by
  by_cases isBang : left = .mark .bang
  · subst isBang
    exact spacing_bang n h.continues
  · exact spacing_of_touches h.hasOwnRule h.continues (h.touches n isBang)

lemma Inseparable.not_closing (h : Inseparable left right) :
    ¬(left = .mark .closeParen ∨ left = .mark .emptyParens) := by
  rintro (rfl | rfl)
  · cases h <;> simp_all [Token.isName]
  · cases h <;> simp_all [Token.isName]

end Pairs

/-! ## The gap between a pair -/

section Gaps

lemma getElem?_conciseGaps {ps : List Placed} {i : Nat} {p q : Placed} (hleft : ps[i]? = some p)
    (hright : ps[i + 1]? = some q) : (conciseGaps ps)[i]? = some (conciseGap p q) := by
  induction ps generalizing i with
  | nil => simp at hleft
  | cons o ps ih =>
    have more : ps ≠ [] := by
      rintro rfl
      simp at hright
    cases i with
    | zero =>
      obtain ⟨r, ps, rfl⟩ := List.exists_cons_of_ne_nil more
      simp_all [conciseGaps]
    | succ i =>
      rw [getElem?_conciseGaps_succ more]
      exact ih hleft hright

/-- On one line each gap is that of its two neighbours, set at the nesting they stand at. -/
lemma getElem?_narrowGaps (before : List Token) (t u : Token) (after : List Token) :
    (narrowGaps (before ++ t :: u :: after))[before.length]? = some (conciseGap
      ⟨t, spacing ((nestingAfter before).enter t) t (some u)⟩
      ⟨u, spacing ((nestingAfter (before ++ [t])).enter u) u after.head?⟩) := by
  have right := getElem?_place (before ++ [t]) u after
  rw [List.append_assoc, List.singleton_append, List.length_append, List.length_singleton] at right
  exact getElem?_conciseGaps (getElem?_place before t (u :: after)) right

lemma length_narrowGaps (ts : List Token) : (narrowGaps ts).length = ts.length - 1 := by
  rw [narrowGaps, ← length_place ts]
  induction place ts with
  | nil => rfl
  | cons p ps ih =>
    cases ps with
    | nil => rfl
    | cons q ps =>
      rw [conciseGaps, List.length_cons, ih]
      simp

variable {left right : Token} (h : Inseparable left right) (before after : List Token)

include h

lemma Inseparable.wideGap :
    (wideGaps (before ++ left :: right :: after))[before.length]? = some .touch := by
  obtain ⟨found, gap, ends⟩ := exists_wideGap before left right after
  have none : found = none := by
    rw [← Option.not_isSome_iff_eq_none]
    intro isSome
    exact h.not_closing (ends isSome)
  rw [gap, none, prettyGap, h.after, h.continues.leading]
  rfl

lemma Inseparable.narrowGap :
    (narrowGaps (before ++ left :: right :: after))[before.length]? = some .touch := by
  have notComment : left.isComment = false := by
    have free := h.hasOwnRule
    simp only [Layout.hasOwnRule, Bool.or_eq_false_iff] at free
    exact free.1.1.1.1.1
  rw [getElem?_narrowGaps, conciseGap, h.after, h.continues.leading]
  simp [notComment]

end Gaps

/-! ## Texts side by side -/

section Texts

variable (indent : List Char) (written : Token → List Char)

/-- The texts of a row, each with the gap behind it. -/
def rowAhead (before : List Token) (gs : List Gap) : List Char :=
  (before.zip gs).flatMap fun entry => written entry.1 ++ entry.2.render indent

/-- The texts of a row, each with the gap in front of it. -/
def rowBehind (gs : List Gap) (after : List Token) : List Char :=
  (gs.zip after).flatMap fun entry => entry.1.render indent ++ written entry.2

/-- In a row written with these gaps, the texts of two neighbours stand side by side. -/
structure SideBySide (gs : List Gap) (before : List Token) (left right : Token)
    (after : List Token) (out : List Char) : Prop where
  /-- The gap between them is empty. -/
  gap : gs[before.length]? = some .touch
  /-- The text is the row before them, the two texts, and the row behind them. -/
  text : out = rowAhead indent written before (gs.take before.length) ++
    (written left ++
      (written right ++ rowBehind indent written (gs.drop (before.length + 1)) after))

lemma sideBySide_weave {gs : List Gap} {before after : List Token} (left right : Token)
    (alike : gs.length = (before ++ left :: right :: after).length - 1)
    (gap : gs[before.length]? = some .touch) :
    SideBySide indent written gs before left right after
      (weave indent ((before ++ left :: right :: after).map written) gs) where
  gap := gap
  text := by
    have long : gs.length = before.length + (after.length + 1) := by
      simp only [List.length_append, List.length_cons] at alike
      omega
    have front : (gs.take before.length).length = before.length := by
      rw [List.length_take, long]
      omega
    have back : (gs.drop before.length).length = (right :: after).length := by
      rw [List.length_drop, long, List.length_cons]
      omega
    obtain ⟨inside, gap⟩ := List.getElem?_eq_some_iff.1 gap
    have split : gs.drop before.length = .touch :: gs.drop (before.length + 1) := by
      rw [List.drop_eq_getElem_cons inside, gap]
    have whole := weave_append indent written before left (right :: after)
      (gs.drop before.length) front
    rw [List.take_append_drop, weave_cons indent written left back, split] at whole
    simpa [rowAhead, rowBehind, Gap.render] using whole

end Texts

/-- Neighbours that belong together are written side by side in both layouts, whatever stands
before them and behind them, and so they are by the passes that lay the row out. -/
theorem layouts_keep_together {left right : Token} (together : Inseparable left right)
    (indent : List Char) (before after : List Token) :
    let ts := before ++ left :: right :: after
    SideBySide indent Token.text (wideGaps ts) before left right after (pretty indent ts) ∧
      SideBySide [] conciseText (narrowGaps ts) before left right after (concise ts) ∧
      GapsOf ts (wideGaps ts) (narrowGaps ts) := by
  intro ts
  refine ⟨?_, ?_, gapsOf ts⟩
  · apply sideBySide_weave indent Token.text left right (length_wideGaps ts)
    exact together.wideGap before after
  · apply sideBySide_weave [] conciseText left right (length_narrowGaps ts)
    exact together.narrowGap before after

/-- What stands in front of a function: brackets that close nothing, and a filter that waits. -/
def strayBrackets : List Token :=
  [.mark .closeParen, .mark .closeBrace, .keyword "FILTER".toList, .mark .openParen]

/-- What stands behind the bracket of its arguments. -/
def argumentsAndPath : List Token :=
  [.string "'v'".toList, .language "en".toList, .mark .closeParen, .mark .closeParen,
    .mark .caret, .iri ['p'], .mark .star, .mark .slash, .prefixed ":q".toList]

/-- A function keeps its arguments inside a filter that is called behind all brackets. -/
theorem layouts_keep_together_strayBrackets :
    let ts := strayBrackets ++ .keyword "STR".toList :: .mark .openParen :: argumentsAndPath
    Inseparable (.keyword "STR".toList) (.mark .openParen) ∧
      pretty defaultIndent ts = ")\n\x7d\nFILTER(STR('v'@en))\n^<p>*/:q".toList ∧
      concise ts = ") \x7d FILTER(STR('v'@en)) ^<p>*/:q".toList ∧
      SideBySide defaultIndent Token.text (wideGaps ts) strayBrackets (.keyword "STR".toList)
        (.mark .openParen) argumentsAndPath (pretty defaultIndent ts) ∧
      SideBySide [] conciseText (narrowGaps ts) strayBrackets (.keyword "STR".toList)
        (.mark .openParen) argumentsAndPath (concise ts) := by
  intro ts
  have together : Inseparable (.keyword "STR".toList) (.mark .openParen) :=
    .builtIn (.inl (by decide))
  obtain ⟨wide, narrow, -⟩ :=
    layouts_keep_together together defaultIndent strayBrackets argumentsAndPath
  exact ⟨together, by decide, by decide, wide, narrow⟩

end SparqlFormat.Layout
