import SparqlFormat.Proofs.Spelling
import SparqlFormat.Proofs.Terminals

/-!
# Names are read as far as their terminals go

The recognisers of names give the longest member of their terminal that the text starts with. For
each of them there is a half that says it does not run too long, so that what it gives is a member
(`…_mem`), and a half that says it does not stop short, so that every other member in that place is
a prefix of what it gives (`prefix_…`). The halves meet in the statements on whole names at the
end.

A recogniser and its expression are compared by one equivalence on the first character of a member,
such as `cons_mem_undotted_tail`, and from there on by the recursion of the recogniser.
-/

namespace SparqlFormat.Terminals

open Computability Lexeme

/-! ## Runs of a class -/

section Runs

variable {p : Char → Bool} {v w r : List Char}

/-- A text of one class that stands at the head of a run and another text is within the run. -/
lemma prefix_of_run (all : ∀ c ∈ v, p c = true) (run : ∀ c ∈ w, p c = true)
    (stop : r.head?.any p = false) (atHead : v <+: w ++ r) : v <+: w := by
  obtain ⟨k, split⟩ := atHead
  have take := congrArg (List.takeWhile p) split
  rw [takeWhile_append_stop run stop, List.takeWhile_append_of_pos all] at take
  exact ⟨_, take⟩

lemma run_unique {x : List Char} (all : ∀ c ∈ v, p c = true) (stop' : x.head?.any p = false)
    (more : x ≠ []) (run : ∀ c ∈ w, p c = true) (stop : r.head?.any p = false)
    (atHead : v ++ x <+: w ++ r) : v = w ∧ x <+: r := by
  obtain ⟨k, split⟩ := atHead
  obtain ⟨c, x, rfl⟩ := List.exists_cons_of_ne_nil more
  rw [List.append_assoc] at split
  have stop'' : (c :: x ++ k).head?.any p = false := stop'
  have take := congrArg (List.takeWhile p) split
  have drop := congrArg (List.dropWhile p) split
  rw [takeWhile_append_stop all stop'', takeWhile_append_stop run stop] at take
  rw [dropWhile_append_stop all stop'', dropWhile_append_stop run stop] at drop
  exact ⟨take, k, drop⟩

lemma prefix_takeWhile (all : ∀ c ∈ v, p c = true) (atHead : v <+: r) : v <+: r.takeWhile p := by
  obtain ⟨k, rfl⟩ := atHead
  rw [List.takeWhile_append_of_pos all]
  exact List.prefix_append _ _

end Runs

variable {c : Char} {cs name v w : List Char}

/-! ## Prefixes and labels -/

/-- The rest of a prefix or a label goes on with a name character or with a dot. -/
lemma cons_mem_undotted_tail :
    c :: w ∈ undotted (one isNameTail) ↔
      isNameTail c = true ∧ w ∈ undotted (one isNameTail) ∨
        c = '.' ∧ w ∈ undotted (one isNameTail) ∧ w ≠ [] := by
  rw [cons_mem_undotted nil_notMem_one]
  refine or_congr_left ⟨?_, ?_⟩
  · rintro ⟨u, v, rfl, hu, hv⟩
    obtain ⟨hc, rfl⟩ := cons_mem_one.1 hu
    exact ⟨hc, hv⟩
  · rintro ⟨hc, hw⟩
    exact ⟨[], w, rfl, cons_mem_one.2 ⟨hc, rfl⟩, hw⟩

lemma dotted_mem (cs : List Char) : dotted cs ∈ undotted (one isNameTail) := by
  fun_induction dotted cs with
  | case1 => exact nil_mem_undotted
  | case2 c cs tail ih => exact cons_mem_undotted_tail.2 (.inl ⟨tail, ih⟩)
  | case3 => exact nil_mem_undotted
  | case4 c cs _ point goesOn ih =>
    exact cons_mem_undotted_tail.2 (.inr ⟨eq_of_beq point, ih, goesOn⟩)
  | case5 => exact nil_mem_undotted

lemma tail_mem_of_cons (member : c :: w ∈ undotted (one isNameTail)) :
    w ∈ undotted (one isNameTail) := by
  rcases cons_mem_undotted_tail.1 member with ⟨-, h⟩ | ⟨-, h, -⟩ <;> exact h

lemma prefix_dotted (member : v ∈ undotted (one isNameTail)) (atHead : v <+: cs) :
    v <+: dotted cs := by
  fun_induction dotted cs generalizing v with
  | case1 => exact atHead
  | case2 c cs tail ih =>
    rcases List.prefix_cons_iff.1 atHead with rfl | ⟨v, rfl, rest⟩
    · exact List.nil_prefix
    · exact List.cons_prefix_cons.2 ⟨rfl, ih (tail_mem_of_cons member) rest⟩
  | case3 c cs notTail point empty ih =>
    rcases List.prefix_cons_iff.1 atHead with rfl | ⟨v, rfl, rest⟩
    · exact List.nil_prefix
    -- the dot is left, for nothing of the name follows it
    rcases cons_mem_undotted_tail.1 member with ⟨tail, -⟩ | ⟨-, member, goesOn⟩
    · exact absurd tail notTail
    · have short := ih member rest
      rw [empty] at short
      exact absurd (List.prefix_nil.1 short) goesOn
  | case4 c cs notTail point run ih =>
    rcases List.prefix_cons_iff.1 atHead with rfl | ⟨v, rfl, rest⟩
    · exact List.nil_prefix
    · exact List.cons_prefix_cons.2 ⟨rfl, ih (tail_mem_of_cons member) rest⟩
  | case5 c cs notTail notPoint =>
    rcases List.prefix_cons_iff.1 atHead with rfl | ⟨v, rfl, -⟩
    · exact List.nil_prefix
    rcases cons_mem_undotted_tail.1 member with ⟨tail, -⟩ | ⟨rfl, -⟩
    · exact absurd tail notTail
    · exact absurd rfl notPoint

/-- The rest of a prefix or a label is made of name characters and dots, the last of them no
dot. -/
lemma mem_undotted_tail :
    w ∈ undotted (one isNameTail) ↔
      (∀ c ∈ w, isDottedChar c = true) ∧ w.getLast? ≠ some '.' := by
  induction w with
  | nil => simp [nil_mem_undotted]
  | cons c w ih =>
    rw [cons_mem_undotted_tail, ih, List.forall_mem_cons]
    have notDot : isNameTail c = true → c ≠ '.' := by
      rintro tail rfl
      exact absurd tail (by decide)
    cases w with
    | nil =>
      by_cases tail : isNameTail c = true <;> simp_all [isDottedChar]
    | cons d w =>
      rw [List.getLast?_cons_cons]
      simp only [isDottedChar, Bool.or_eq_true, beq_iff_eq, ne_eq, reduceCtorEq, not_false_eq_true,
        and_true]
      tauto

/-- The part of a prefixed name before its colon is what the reader takes for one. -/
lemma mem_prefixPart :
    w ∈ 1 + prefixPart ↔ (∀ c ∈ w, isDottedChar c = true) ∧ isPrefixPart w = true := by
  cases w with
  | nil => exact ⟨fun _ => ⟨List.forall_mem_nil _, rfl⟩, fun _ => .inl rfl⟩
  | cons c w =>
    have member : c :: w ∈ 1 + prefixPart ↔
        isNameBase c = true ∧ w ∈ undotted (one isNameTail) := by
      rw [Language.mem_add, prefixPart, cons_mem_one_mul]
      exact or_iff_right (List.cons_ne_nil c w)
    have dotted : isNameBase c = true → isDottedChar c = true := by
      intro base
      simp [isDottedChar, isNameTail, isVariableTail, isLabelStart, isNameStart, base]
    have notDot : isNameBase c = true → c ≠ '.' := by
      rintro base rfl
      exact absurd base (by decide)
    rw [member, mem_undotted_tail, List.forall_mem_cons, isPrefixPart, List.head?_cons,
      List.getLast?_cons]
    cases last : w.getLast? with
    | none =>
      simp only [Option.getD_none, Bool.and_eq_true, bne_iff_ne]
      tauto
    | some d =>
      simp only [Option.getD_some, Bool.and_eq_true, bne_iff_ne, ne_eq, Option.some.injEq]
      tauto

/-! ## Local names -/

lemma cons_mem_localEscape :
    c :: w ∈ localEscape ↔
      (c = '%' ∧ ∃ h l, w = [h, l] ∧ (isHex h && isHex l) = true) ∨
        c = '\\' ∧ ∃ e, w = [e] ∧ localEscapes.contains e = true := by
  rw [localEscape, Language.mem_add, mem_exactly_mul, mem_exactly_mul]
  refine or_congr ⟨?_, ?_⟩ ⟨?_, ?_⟩
  · rintro ⟨v, hv, split⟩
    obtain ⟨rfl, rfl⟩ := List.cons.inj split
    obtain ⟨h, _, hh, ⟨l, hl, rfl⟩, rfl⟩ := mem_one_mul.1 hv
    exact ⟨rfl, h, l, rfl, by rw [hh, hl]; rfl⟩
  · rintro ⟨rfl, h, l, rfl, hex⟩
    rw [Bool.and_eq_true] at hex
    exact ⟨[h, l], by simp [hex], rfl⟩
  · rintro ⟨_, ⟨e, he, rfl⟩, split⟩
    obtain ⟨rfl, rfl⟩ := List.cons.inj split
    exact ⟨rfl, e, rfl, he⟩
  · rintro ⟨rfl, e, rfl, he⟩
    exact ⟨[e], ⟨e, he, rfl⟩, rfl⟩

lemma nil_notMem_localEscape : [] ∉ localEscape := by
  rintro (h | h) <;> obtain ⟨v, -, split⟩ := mem_exactly_mul.1 h <;> cases split

/-- What goes on with a local name. -/
def localUnit : Language Char :=
  one (fun c => isNameTail c || c == ':') + localEscape

lemma nil_notMem_localUnit : [] ∉ localUnit := by
  rintro (h | h)
  · exact nil_notMem_one h
  · exact nil_notMem_localEscape h

lemma cons_mem_undotted_unit :
    c :: w ∈ undotted localUnit ↔
      ((isNameTail c || c == ':') = true ∧ w ∈ undotted localUnit) ∨
        (c = '%' ∧ ∃ h l v, w = h :: l :: v ∧ (isHex h && isHex l) = true ∧
          v ∈ undotted localUnit) ∨
        (c = '\\' ∧ ∃ e v, w = e :: v ∧ localEscapes.contains e = true ∧
          v ∈ undotted localUnit) ∨
        c = '.' ∧ w ∈ undotted localUnit ∧ w ≠ [] := by
  rw [cons_mem_undotted nil_notMem_localUnit, ← or_assoc, ← or_assoc]
  refine or_congr_left ⟨?_, ?_⟩
  · rintro ⟨u, v, rfl, hu | hu, hv⟩
    · obtain ⟨hc, rfl⟩ := cons_mem_one.1 hu
      exact .inl (.inl ⟨hc, hv⟩)
    · rcases cons_mem_localEscape.1 hu with ⟨rfl, h, l, rfl, hex⟩ | ⟨rfl, e, rfl, he⟩
      · exact .inl (.inr ⟨rfl, h, l, v, rfl, hex, hv⟩)
      · exact .inr ⟨rfl, e, v, rfl, he, hv⟩
  · rintro ((⟨hc, hw⟩ | ⟨rfl, h, l, v, rfl, hex, hv⟩) | ⟨rfl, e, v, rfl, he, hv⟩)
    · exact ⟨[], w, rfl, .inl (cons_mem_one.2 ⟨hc, rfl⟩), hw⟩
    · exact ⟨[h, l], v, rfl, .inr (cons_mem_localEscape.2 (.inl ⟨rfl, h, l, rfl, hex⟩)), hv⟩
    · exact ⟨[e], v, rfl, .inr (cons_mem_localEscape.2 (.inr ⟨rfl, e, rfl, he⟩)), hv⟩

lemma percent_mem_undotted :
    '%' :: w ∈ undotted localUnit ↔
      ∃ h l v, w = h :: l :: v ∧ (isHex h && isHex l) = true ∧ v ∈ undotted localUnit := by
  have notPlain : (isNameTail '%' || '%' == ':') = false := by decide
  rw [cons_mem_undotted_unit, notPlain]
  simp

lemma backslash_mem_undotted :
    '\\' :: w ∈ undotted localUnit ↔
      ∃ e v, w = e :: v ∧ localEscapes.contains e = true ∧ v ∈ undotted localUnit := by
  have notPlain : (isNameTail '\\' || '\\' == ':') = false := by decide
  rw [cons_mem_undotted_unit, notPlain]
  simp

lemma point_mem_undotted :
    '.' :: w ∈ undotted localUnit ↔ w ∈ undotted localUnit ∧ w ≠ [] := by
  have notPlain : (isNameTail '.' || '.' == ':') = false := by decide
  rw [cons_mem_undotted_unit, notPlain]
  simp

lemma plain_mem_undotted (plain : (isNameTail c || c == ':') = true) :
    c :: w ∈ undotted localUnit ↔ w ∈ undotted localUnit := by
  have apart : ∀ d, (isNameTail d || d == ':') = false → c ≠ d := by
    rintro d notPlain rfl
    rw [plain] at notPlain
    cases notPlain
  rw [cons_mem_undotted_unit]
  simp only [plain, true_and, apart '%' (by decide), apart '\\' (by decide),
    apart '.' (by decide), false_and, or_false]

lemma localTail_mem (cs : List Char) : localTail cs ∈ undotted localUnit := by
  fun_induction localTail cs with
  | case1 => exact nil_mem_undotted
  | case2 h l cs hex ih => exact percent_mem_undotted.2 ⟨h, l, _, rfl, hex, ih⟩
  | case3 => exact nil_mem_undotted
  | case4 e cs mark ih => exact backslash_mem_undotted.2 ⟨e, _, rfl, mark, ih⟩
  | case5 => exact nil_mem_undotted
  | case6 c cs _ _ plain ih => exact (plain_mem_undotted plain).2 ih
  | case7 => exact nil_mem_undotted
  | case8 c cs _ _ _ point goesOn ih =>
    obtain rfl := eq_of_beq point
    exact point_mem_undotted.2 ⟨ih, goesOn⟩
  | case9 => exact nil_mem_undotted

lemma prefix_localTail (member : v ∈ undotted localUnit) (atHead : v <+: cs) :
    v <+: localTail cs := by
  fun_induction localTail cs generalizing v with
  | case1 => exact atHead
  | case2 h l cs hex ih =>
    rcases List.prefix_cons_iff.1 atHead with rfl | ⟨v, rfl, rest⟩
    · exact List.nil_prefix
    obtain ⟨h', l', v, rfl, -, member⟩ := percent_mem_undotted.1 member
    obtain ⟨rfl, more⟩ := List.cons_prefix_cons.1 rest
    obtain ⟨rfl, after⟩ := List.cons_prefix_cons.1 more
    simpa using ih member after
  | case3 h l cs notHex =>
    rcases List.prefix_cons_iff.1 atHead with rfl | ⟨v, rfl, rest⟩
    · exact List.nil_prefix
    obtain ⟨h', l', v, rfl, hex, -⟩ := percent_mem_undotted.1 member
    obtain ⟨rfl, more⟩ := List.cons_prefix_cons.1 rest
    obtain ⟨rfl, -⟩ := List.cons_prefix_cons.1 more
    exact absurd hex notHex
  | case4 e cs mark ih =>
    rcases List.prefix_cons_iff.1 atHead with rfl | ⟨v, rfl, rest⟩
    · exact List.nil_prefix
    obtain ⟨e', v, rfl, -, member⟩ := backslash_mem_undotted.1 member
    obtain ⟨rfl, after⟩ := List.cons_prefix_cons.1 rest
    simpa using ih member after
  | case5 e cs notMark =>
    rcases List.prefix_cons_iff.1 atHead with rfl | ⟨v, rfl, rest⟩
    · exact List.nil_prefix
    obtain ⟨e', v, rfl, mark, -⟩ := backslash_mem_undotted.1 member
    obtain ⟨rfl, -⟩ := List.cons_prefix_cons.1 rest
    exact absurd mark notMark
  | case6 c cs _ _ plain ih =>
    rcases List.prefix_cons_iff.1 atHead with rfl | ⟨v, rfl, rest⟩
    · exact List.nil_prefix
    · exact List.cons_prefix_cons.2 ⟨rfl, ih ((plain_mem_undotted plain).1 member) rest⟩
  | case7 c cs _ _ notPlain point empty ih =>
    obtain rfl := eq_of_beq point
    rcases List.prefix_cons_iff.1 atHead with rfl | ⟨v, rfl, rest⟩
    · exact List.nil_prefix
    -- the dot is left, for nothing of the name follows it
    obtain ⟨member, goesOn⟩ := point_mem_undotted.1 member
    have short := ih member rest
    rw [empty] at short
    exact absurd (List.prefix_nil.1 short) goesOn
  | case8 c cs _ _ notPlain point run ih =>
    obtain rfl := eq_of_beq point
    rcases List.prefix_cons_iff.1 atHead with rfl | ⟨v, rfl, rest⟩
    · exact List.nil_prefix
    · exact List.cons_prefix_cons.2 ⟨rfl, ih (point_mem_undotted.1 member).1 rest⟩
  | case9 c cs notPercent notBackslash notPlain notPoint =>
    rcases List.prefix_cons_iff.1 atHead with rfl | ⟨v, rfl, k, rest⟩
    · exact List.nil_prefix
    rcases cons_mem_undotted_unit.1 member with ⟨plain, -⟩ | ⟨percent, h, l, v, rfl, -⟩ |
      ⟨backslash, e, v, rfl, -⟩ | ⟨point, -⟩
    · exact absurd plain notPlain
    · exact (notPercent h l (v ++ k) percent rest.symm).elim
    · exact (notBackslash e (v ++ k) backslash rest.symm).elim
    · exact absurd (beq_iff_eq.2 point) notPoint

lemma cons_mem_localPart :
    c :: w ∈ localPart ↔
      ((isLabelStart c || c == ':') = true ∧ w ∈ undotted localUnit) ∨
        (c = '%' ∨ c = '\\') ∧ c :: w ∈ undotted localUnit := by
  rw [localPart, Language.mem_mul]
  constructor
  · rintro ⟨x, hx, y, hy, split⟩
    rcases hx with ⟨d, hd, rfl⟩ | hx
    · obtain ⟨rfl, rfl⟩ := List.cons.inj split
      exact .inl ⟨hd, hy⟩
    · cases x with
      | nil => exact absurd hx nil_notMem_localEscape
      | cons d x =>
        obtain ⟨rfl, rfl⟩ := List.cons.inj split
        rcases cons_mem_localEscape.1 hx with ⟨rfl, h, l, rfl, hex⟩ | ⟨rfl, e, rfl, mark⟩
        · exact .inr ⟨.inl rfl, percent_mem_undotted.2 ⟨h, l, y, rfl, hex, hy⟩⟩
        · exact .inr ⟨.inr rfl, backslash_mem_undotted.2 ⟨e, y, rfl, mark, hy⟩⟩
  · rintro (⟨start, hw⟩ | ⟨rfl | rfl, member⟩)
    · exact ⟨[c], .inl ⟨c, start, rfl⟩, w, hw, rfl⟩
    · obtain ⟨h, l, v, rfl, hex, hv⟩ := percent_mem_undotted.1 member
      exact ⟨['%', h, l], .inr (cons_mem_localEscape.2 (.inl ⟨rfl, h, l, rfl, hex⟩)), v, hv, rfl⟩
    · obtain ⟨e, v, rfl, mark, hv⟩ := backslash_mem_undotted.1 member
      exact ⟨['\\', e], .inr (cons_mem_localEscape.2 (.inr ⟨rfl, e, rfl, mark⟩)), v, hv, rfl⟩

/-- The tail at the head of a text that starts with an escape is a local name, if it is not
nothing. -/
lemma localTail_mem_localPart (escape : c = '%' ∨ c = '\\') :
    localTail (c :: cs) ∈ 1 + localPart := by
  have member := localTail_mem (c :: cs)
  have atHead := localTail_isPrefix (c :: cs)
  rcases List.prefix_cons_iff.1 atHead with empty | ⟨v, split, -⟩
  · exact .inl empty
  · rw [split] at member ⊢
    exact .inr (cons_mem_localPart.2 (.inr ⟨escape, member⟩))

lemma localName_mem (cs : List Char) : localName cs ∈ 1 + localPart := by
  fun_cases localName cs with
  | case1 => exact .inl rfl
  | case2 cs => exact localTail_mem_localPart (.inl rfl)
  | case3 cs => exact localTail_mem_localPart (.inr rfl)
  | case4 c cs _ _ start => exact .inr (cons_mem_localPart.2 (.inl ⟨start, localTail_mem cs⟩))
  | case5 => exact .inl rfl

lemma prefix_localName (member : v ∈ 1 + localPart) (atHead : v <+: cs) : v <+: localName cs := by
  rcases member with rfl | member
  · exact List.nil_prefix
  cases v with
  | nil => exact List.nil_prefix
  | cons c v =>
    have member := cons_mem_localPart.1 member
    have percent : (isLabelStart '%' || '%' == ':') = false := by decide
    have backslash : (isLabelStart '\\' || '\\' == ':') = false := by decide
    fun_cases localName cs with
    | case1 => exact atHead
    | case2 cs =>
      obtain ⟨rfl, -⟩ := List.cons_prefix_cons.1 atHead
      simp only [percent, Bool.false_eq_true, false_and, false_or] at member
      exact prefix_localTail member.2 atHead
    | case3 cs =>
      obtain ⟨rfl, -⟩ := List.cons_prefix_cons.1 atHead
      simp only [backslash, Bool.false_eq_true, false_and, false_or] at member
      exact prefix_localTail member.2 atHead
    | case4 c cs notPercent notBackslash start =>
      obtain ⟨rfl, rest⟩ := List.cons_prefix_cons.1 atHead
      rcases member with ⟨-, member⟩ | ⟨escape, -⟩
      · exact List.cons_prefix_cons.2 ⟨rfl, prefix_localTail member rest⟩
      · exact (escape.elim notPercent notBackslash).elim
    | case5 c cs notPercent notBackslash notStart =>
      obtain ⟨rfl, -⟩ := List.cons_prefix_cons.1 atHead
      rcases member with ⟨start, -⟩ | ⟨escape, -⟩
      · exact absurd start notStart
      · exact (escape.elim notPercent notBackslash).elim

/-! ## Prefixed names -/

/-- What is read as a prefixed name is the longest one there. -/
lemma isLongest_prefixedName (read : prefixedName? cs = some name) :
    IsLongest prefixedName name cs := by
  obtain ⟨run, rest, rfl, dots, isPrefix, rfl⟩ := prefixedName?_eq_some.1 read
  have colon : isDottedChar ':' = false := by decide
  refine .of_atHead ?_ (prefixedName?_isPrefix read) ?_
  · exact ⟨run, mem_prefixPart.2 ⟨dots, isPrefix⟩, ':' :: localName rest,
      mem_exactly_mul.2 ⟨_, localName_mem rest, rfl⟩, rfl⟩
  · rintro _ ⟨run', hrun', _, hlocal, rfl⟩ atHead
    obtain ⟨part, hpart, rfl⟩ := mem_exactly_mul.1 hlocal
    -- neither prefix holds a colon, so both end at the first one
    obtain ⟨rfl, after⟩ := run_unique (x := [':'] ++ part) (r := ':' :: rest)
      (mem_prefixPart.1 hrun').1 colon (by simp) dots colon atHead
    obtain ⟨-, after⟩ := List.cons_prefix_cons.1 after
    exact (List.prefix_append_right_inj _).2
      (List.cons_prefix_cons.2 ⟨rfl, prefix_localName hpart after⟩)

/-! ## Labels and variables -/

lemma isLongest_blankNodeLabel (read : label? cs = some name) :
    IsLongest blankNodeLabel ('_' :: ':' :: name) ('_' :: ':' :: cs) := by
  have atHead : '_' :: ':' :: name <+: '_' :: ':' :: cs := by simpa using label?_isPrefix read
  cases cs with
  | nil => cases read
  | cons c cs =>
    simp only [label?, Option.ite_none_right_eq_some, Option.some.injEq] at read
    obtain ⟨start, rfl⟩ := read
    refine .of_atHead ?_ atHead ?_
    · exact mem_exactly_mul.2 ⟨_, cons_mem_one_mul.2 ⟨start, dotted_mem cs⟩, rfl⟩
    · intro v hv atHead
      obtain ⟨_, hlabel, rfl⟩ := mem_exactly_mul.1 hv
      obtain ⟨d, rest, -, hrest, rfl⟩ := mem_one_mul.1 hlabel
      simp only [List.cons_append, List.nil_append, List.cons_prefix_cons, true_and] at atHead ⊢
      exact ⟨atHead.1, prefix_dotted hrest atHead.2⟩

lemma isLongest_variableName {sigil : Char} (isSigil : sigil = '?' ∨ sigil = '$')
    (read : Lexeme.variableName? cs = some name) :
    IsLongest variableName (sigil :: name) (sigil :: cs) := by
  have atHead : sigil :: name <+: sigil :: cs :=
    List.cons_prefix_cons.2 ⟨rfl, variableName?_isPrefix read⟩
  cases cs with
  | nil => cases read
  | cons c cs =>
    simp only [variableName?, Option.ite_none_right_eq_some, Option.some.injEq] at read
    obtain ⟨start, rfl⟩ := read
    refine .of_atHead ?_ atHead ?_
    · refine cons_mem_one_mul.2 ⟨by simpa using isSigil, cons_mem_one_mul.2 ⟨start, ?_⟩⟩
      exact mem_kstar_one.2 fun d => of_mem_takeWhile
    · intro v hv atHead
      obtain ⟨d, _, -, hname, rfl⟩ := mem_one_mul.1 hv
      obtain ⟨e, rest, -, hrest, rfl⟩ := mem_one_mul.1 hname
      simp only [List.cons_prefix_cons] at atHead ⊢
      exact ⟨atHead.1, atHead.2.1, prefix_takeWhile (mem_kstar_one.1 hrest) atHead.2.2⟩

/-! ## Language tags -/

/-- What follows the letters of a language tag: letters and digits that go on with a subtag, and
more subtags. -/
def subtagsPart : Language Char :=
  (one isLetterOrDigit)∗ * (exactly ['-'] * repeated (one isLetterOrDigit))∗

/-- A row of subtags starts with a hyphen that a letter or digit follows. -/
lemma cons_mem_subtagRow :
    c :: w ∈ (exactly ['-'] * repeated (one isLetterOrDigit))∗ ↔
      c = '-' ∧ w.head?.any isLetterOrDigit = true ∧ w ∈ subtagsPart := by
  rw [cons_mem_kstar]
  constructor
  · rintro ⟨u, v, rfl, hu, hv⟩
    obtain ⟨run, hrun, split⟩ := mem_exactly_mul.1 hu
    obtain ⟨rfl, rfl⟩ := List.cons.inj split
    obtain ⟨nonempty, all⟩ := mem_repeated_one.1 hrun
    obtain ⟨d, run, rfl⟩ := List.exists_cons_of_ne_nil nonempty
    exact ⟨rfl, all d (by simp), d :: run, mem_kstar_one.2 all, v, hv, rfl⟩
  · rintro ⟨rfl, start, run, hrun, v, hv, rfl⟩
    refine ⟨run, v, rfl, mem_exactly_mul.2 ⟨run, mem_repeated_one.2 ⟨?_, mem_kstar_one.1 hrun⟩,
      rfl⟩, hv⟩
    rintro rfl
    -- without a letter or digit the rest would start with the next hyphen
    cases v with
    | nil => cases start
    | cons d v =>
      obtain ⟨u, x, -, hu, -⟩ := cons_mem_kstar.1 hv
      obtain ⟨_, -, split⟩ := mem_exactly_mul.1 hu
      obtain ⟨rfl, -⟩ := List.cons.inj split
      have notMember : isLetterOrDigit '-' = false := by decide
      exact absurd (notMember.symm.trans start) (by decide)

/-- The part after the letters goes on with a letter or digit, or with one after a hyphen. -/
lemma cons_mem_subtagsPart :
    c :: w ∈ subtagsPart ↔
      (isLetterOrDigit c = true ∧ w ∈ subtagsPart) ∨
        c = '-' ∧ w.head?.any isLetterOrDigit = true ∧ w ∈ subtagsPart := by
  rw [← cons_mem_subtagRow]
  constructor
  · rintro ⟨run, hrun, v, hv, split⟩
    cases run with
    | nil =>
      obtain rfl : v = c :: w := split
      exact .inr hv
    | cons d run =>
      obtain ⟨rfl, rfl⟩ := List.cons.inj split
      obtain ⟨hd, all⟩ := List.forall_mem_cons.1 (mem_kstar_one.1 hrun)
      exact .inl ⟨hd, run, mem_kstar_one.2 all, v, hv, rfl⟩
  · rintro (⟨hc, run, hrun, v, hv, rfl⟩ | hv)
    · exact ⟨c :: run, mem_kstar_one.2 (List.forall_mem_cons.2 ⟨hc, mem_kstar_one.1 hrun⟩), v, hv,
        rfl⟩
    · exact ⟨[], Language.nil_mem_kstar _, c :: w, hv, rfl⟩

lemma nil_mem_subtagsPart : [] ∈ subtagsPart :=
  ⟨[], Language.nil_mem_kstar _, [], Language.nil_mem_kstar _, rfl⟩

lemma head?_subtags (start : cs.head?.any isLetterOrDigit = true) :
    (subtags cs).head?.any isLetterOrDigit = true := by
  cases cs with
  | nil => cases start
  | cons c cs =>
    have hc : isLetterOrDigit c = true := start
    simp [subtags, hc]

lemma subtags_mem (cs : List Char) : subtags cs ∈ subtagsPart := by
  fun_induction subtags cs with
  | case1 => exact nil_mem_subtagsPart
  | case2 c cs hc ih => exact cons_mem_subtagsPart.2 (.inl ⟨hc, ih⟩)
  | case3 c cs _ hyphen ih =>
    rw [Bool.and_eq_true, beq_iff_eq] at hyphen
    refine cons_mem_subtagsPart.2 (.inr ⟨hyphen.1, head?_subtags ?_, ih⟩)
    cases cs with
    | nil => cases hyphen.2
    | cons d cs => exact hyphen.2
  | case4 => exact nil_mem_subtagsPart

lemma prefix_subtags (member : v ∈ subtagsPart) (atHead : v <+: cs) : v <+: subtags cs := by
  fun_induction subtags cs generalizing v with
  | case1 => exact atHead
  | case2 c cs hc ih =>
    rcases List.prefix_cons_iff.1 atHead with rfl | ⟨v, rfl, rest⟩
    · exact List.nil_prefix
    have member : v ∈ subtagsPart := by
      rcases cons_mem_subtagsPart.1 member with ⟨-, h⟩ | ⟨-, -, h⟩ <;> exact h
    exact List.cons_prefix_cons.2 ⟨rfl, ih member rest⟩
  | case3 c cs notMember hyphen ih =>
    rcases List.prefix_cons_iff.1 atHead with rfl | ⟨v, rfl, rest⟩
    · exact List.nil_prefix
    have member : v ∈ subtagsPart := by
      rcases cons_mem_subtagsPart.1 member with ⟨-, h⟩ | ⟨-, -, h⟩ <;> exact h
    exact List.cons_prefix_cons.2 ⟨rfl, ih member rest⟩
  | case4 c cs notMember notHyphen =>
    rcases List.prefix_cons_iff.1 atHead with rfl | ⟨v, rfl, k, rfl⟩
    · exact List.nil_prefix
    rcases cons_mem_subtagsPart.1 member with ⟨hc, -⟩ | ⟨rfl, start, -⟩
    · exact absurd hc notMember
    · cases v with
      | nil => cases start
      | cons d v =>
        have hd : isLetterOrDigit d = true := start
        exact absurd (by simp [hd]) notHyphen

/-- Subtags that start with a hyphen are a row of whole ones. -/
lemma subtags_mem_row (hyphen : cs.head? = some '-') :
    subtags cs ∈ (exactly ['-'] * repeated (one isLetterOrDigit))∗ := by
  have member := subtags_mem cs
  have atHead := subtags_isPrefix cs
  have notMember : isLetterOrDigit '-' = false := by decide
  cases read : subtags cs with
  | nil => exact Language.nil_mem_kstar _
  | cons c w =>
    rw [read] at member atHead
    obtain ⟨k, rfl⟩ := atHead
    obtain rfl : c = '-' := by simpa using hyphen
    rw [cons_mem_subtagsPart, notMember] at member
    exact cons_mem_subtagRow.2 (by simpa using member)

lemma isLongest_languageTag (read : languageTag? cs = some name) :
    IsLongest languageTag ('@' :: name) ('@' :: cs) := by
  have atHead : '@' :: name <+: '@' :: cs :=
    List.cons_prefix_cons.2 ⟨rfl, languageTag?_isPrefix read⟩
  obtain ⟨nonempty, rfl⟩ := languageTag?_eq_some.1 read
  have letters : ∀ c ∈ cs.takeWhile isLetter, isLetter c = true := fun c => of_mem_takeWhile
  have stop : (cs.dropWhile isLetter).head?.any isLetter = false := head?_dropWhile_any _ _
  have cut := (List.takeWhile_append_dropWhile (p := isLetter) (l := cs)).symm
  refine .of_atHead ?_ atHead ?_
  · refine mem_exactly_mul.2 ⟨_, ⟨_, mem_repeated_one.2 ⟨nonempty, letters⟩, _, ?_, rfl⟩, rfl⟩
    split
    · next hyphen => exact subtags_mem_row hyphen
    · exact Language.nil_mem_kstar _
  · intro v hv atHead
    obtain ⟨_, htag, rfl⟩ := mem_exactly_mul.1 hv
    obtain ⟨primary, hprimary, row, hrow, rfl⟩ := Language.mem_mul.1 htag
    have letters' := (mem_repeated_one.1 hprimary).2
    rw [List.singleton_append, List.cons_prefix_cons] at atHead ⊢
    refine ⟨rfl, ?_⟩
    have atHead := atHead.2
    cases row with
    | nil =>
      rw [List.append_nil] at atHead ⊢
      exact (prefix_takeWhile letters' atHead).trans (List.prefix_append _ _)
    | cons c row =>
      obtain ⟨rfl, -⟩ := cons_mem_subtagRow.1 hrow
      have stop' : ('-' :: row).head?.any isLetter = false :=
        (by decide : isLetter '-' = false)
      rw [cut] at atHead
      obtain ⟨rfl, rest⟩ := run_unique letters' stop' (by simp) letters stop atHead
      have hyphen : (cs.dropWhile isLetter).head? = some '-' := by
        obtain ⟨k, split⟩ := rest
        rw [← split]
        rfl
      rw [if_pos hyphen]
      refine (List.prefix_append_right_inj _).2 (prefix_subtags ?_ rest)
      exact ⟨[], Language.nil_mem_kstar _, _, hrow, rfl⟩

end SparqlFormat.Terminals
