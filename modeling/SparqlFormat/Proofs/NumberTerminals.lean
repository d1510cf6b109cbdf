import SparqlFormat.Proofs.NameTerminals

/-!
# Numbers are read as far as their terminals go

A text is digits, a point, digits and a rest, or digits and a rest without a point. In either case
a number at its head cannot help beginning with just these digits, so it is settled piece by piece
what its point, its fraction and its exponent are (`exists_unsigned?`).

The three shapes of number have no member in common: the letter of the exponent and the point tell
them apart (`eq_shape_of_mem`).
-/

namespace SparqlFormat.Terminals

open Computability Lexeme

variable {cs e v w : List Char} {kind : NumberKind}

/-! ## Signs -/

lemma sign_mem (cs : List Char) : Lexeme.sign cs ∈ sign := by
  fun_cases Lexeme.sign cs with
  | case1 => exact .inr ⟨'+', rfl, rfl⟩
  | case2 => exact .inr ⟨'-', rfl, rfl⟩
  | case3 => exact .inl rfl

/-- In front of a digit or a point there is one sign to be read, or none. -/
lemma sign_unique {s y : List Char} (member : s ∈ sign)
    (start : y.head?.any (fun c => isDigit c || c == '.') = true) (atHead : s ++ y <+: cs) :
    s = Lexeme.sign cs ∧ y <+: cs.drop (Lexeme.sign cs).length := by
  obtain ⟨k, rfl⟩ := atHead
  have unsigned : ∀ d, (isDigit d || d == '.') = true → d ≠ '+' ∧ d ≠ '-' := by
    refine fun d hd => ⟨?_, ?_⟩ <;> rintro rfl <;> exact absurd hd (by decide)
  rcases member with rfl | ⟨c, isSign, rfl⟩
  · cases y with
    | nil => cases start
    | cons d y =>
      have apart := unsigned d start
      simp [Lexeme.sign, apart]
  · rcases (by simpa using isSign : c = '+' ∨ c = '-') with rfl | rfl <;> simp [Lexeme.sign]

/-! ## Exponents -/

lemma exponent_mem (read : exponent? cs = some e) : e ∈ exponent := by
  obtain ⟨c, rest, -, letter, nonempty, rfl⟩ := exponent?_eq_some read
  refine cons_mem_one_mul.2 ⟨letter, _, sign_mem rest, _, mem_repeated_one.2 ⟨nonempty, ?_⟩, rfl⟩
  exact fun c => of_mem_takeWhile

lemma head?_of_mem_exponent (member : e ∈ exponent) :
    ∃ c rest, e = c :: rest ∧ (c = 'e' ∨ c = 'E') := by
  obtain ⟨c, rest, letter, -, rfl⟩ := mem_one_mul.1 member
  exact ⟨c, rest, rfl, by simpa using letter⟩

/-- Where there is an exponent, one is read that is at least as long. -/
lemma exists_exponent? (member : v ∈ exponent) (atHead : v <+: cs) :
    ∃ e, exponent? cs = some e ∧ v <+: e := by
  obtain ⟨c, rest, letter, hrest, rfl⟩ := mem_one_mul.1 member
  obtain ⟨s, hs, ds, hds, rfl⟩ := Language.mem_mul.1 hrest
  obtain ⟨nonempty, all⟩ := mem_repeated_one.1 hds
  have start : ds.head?.any (fun c => isDigit c || c == '.') = true := by
    obtain ⟨d, ds, rfl⟩ := List.exists_cons_of_ne_nil nonempty
    simp [all d]
  cases cs with
  | nil => cases List.prefix_nil.1 atHead
  | cons d cs =>
    obtain ⟨rfl, rest⟩ := List.cons_prefix_cons.1 atHead
    obtain ⟨rfl, within⟩ := sign_unique hs start rest
    have run := prefix_takeWhile all within
    refine ⟨c :: (Lexeme.sign cs ++ (cs.drop (Lexeme.sign cs).length).takeWhile isDigit), ?_,
      List.cons_prefix_cons.2 ⟨rfl, (List.prefix_append_right_inj _).2 run⟩⟩
    simp only [exponent?, letter, if_true]
    split
    · next empty =>
      rw [empty] at run
      exact absurd (List.prefix_nil.1 run) nonempty
    · rfl

/-! ## Numbers without a sign -/

lemma mem_integer : v ∈ unsigned .integer ↔ v ≠ [] ∧ ∀ c ∈ v, isDigit c = true :=
  mem_repeated_one

lemma mem_decimal :
    v ∈ unsigned .decimal ↔ ∃ w f, (∀ c ∈ w, isDigit c = true) ∧ (∀ c ∈ f, isDigit c = true) ∧
      f ≠ [] ∧ v = w ++ '.' :: f := by
  constructor
  · intro h
    obtain ⟨w, hw, _, hpoint, rfl⟩ := Language.mem_mul.1 h
    obtain ⟨f, hf, rfl⟩ := mem_exactly_mul.1 hpoint
    obtain ⟨nonempty, hf⟩ := mem_repeated_one.1 hf
    exact ⟨w, f, mem_kstar_one.1 hw, hf, nonempty, rfl⟩
  · rintro ⟨w, f, hw, hf, nonempty, rfl⟩
    exact ⟨w, mem_kstar_one.2 hw, '.' :: f,
      mem_exactly_mul.2 ⟨f, mem_repeated_one.2 ⟨nonempty, hf⟩, rfl⟩, rfl⟩

/-- A double has a point with a digit somewhere beside it, or none and at least one digit. -/
lemma mem_double :
    v ∈ unsigned .double ↔
      (∃ w f e, (∀ c ∈ w, isDigit c = true) ∧ (∀ c ∈ f, isDigit c = true) ∧ (w ≠ [] ∨ f ≠ []) ∧
        e ∈ exponent ∧ v = w ++ '.' :: (f ++ e)) ∨
      ∃ w e, (∀ c ∈ w, isDigit c = true) ∧ w ≠ [] ∧ e ∈ exponent ∧ v = w ++ e := by
  constructor
  · rintro ((h | h) | h)
    · obtain ⟨w, hw, _, hpoint, rfl⟩ := Language.mem_mul.1 h
      obtain ⟨_, hfraction, rfl⟩ := mem_exactly_mul.1 hpoint
      obtain ⟨f, hf, e, he, rfl⟩ := Language.mem_mul.1 hfraction
      obtain ⟨nonempty, hw⟩ := mem_repeated_one.1 hw
      exact .inl ⟨w, f, e, hw, mem_kstar_one.1 hf, .inl nonempty, he, rfl⟩
    · obtain ⟨_, hfraction, rfl⟩ := mem_exactly_mul.1 h
      obtain ⟨f, hf, e, he, rfl⟩ := Language.mem_mul.1 hfraction
      obtain ⟨nonempty, hf⟩ := mem_repeated_one.1 hf
      exact .inl ⟨[], f, e, List.forall_mem_nil _, hf, .inr nonempty, he, rfl⟩
    · obtain ⟨w, hw, e, he, rfl⟩ := Language.mem_mul.1 h
      obtain ⟨nonempty, hw⟩ := mem_repeated_one.1 hw
      exact .inr ⟨w, e, hw, nonempty, he, rfl⟩
  · rintro (⟨w, f, e, hw, hf, some, he, rfl⟩ | ⟨w, e, hw, nonempty, he, rfl⟩)
    · by_cases nonempty : w = []
      · subst nonempty
        have fraction := mem_repeated_one.2 ⟨some.resolve_left (fun h => h rfl), hf⟩
        exact .inl (.inr (mem_exactly_mul.2 ⟨_, Language.append_mem_mul fraction he, rfl⟩))
      · refine .inl (.inl ⟨w, mem_repeated_one.2 ⟨nonempty, hw⟩, '.' :: (f ++ e), ?_, rfl⟩)
        exact mem_exactly_mul.2
          ⟨_, Language.append_mem_mul (mem_kstar_one.2 hf) he, rfl⟩
    · exact .inr (Language.append_mem_mul (mem_repeated_one.2 ⟨nonempty, hw⟩) he)

lemma head?_of_mem_unsigned (member : v ∈ unsigned kind) :
    v.head?.any (fun c => isDigit c || c == '.') = true := by
  have digits : ∀ {w x : List Char}, (∀ c ∈ w, isDigit c = true) → w ≠ [] →
      (w ++ x).head?.any (fun c => isDigit c || c == '.') = true := by
    intro w x all nonempty
    obtain ⟨d, w, rfl⟩ := List.exists_cons_of_ne_nil nonempty
    simp [all d]
  have point : ∀ {w x : List Char}, (∀ c ∈ w, isDigit c = true) →
      (w ++ '.' :: x).head?.any (fun c => isDigit c || c == '.') = true := by
    intro w x all
    by_cases nonempty : w = []
    · simp [nonempty]
    · exact digits all nonempty
  cases kind with
  | integer =>
    obtain ⟨nonempty, all⟩ := mem_integer.1 member
    simpa using digits (x := []) all nonempty
  | decimal =>
    obtain ⟨w, f, hw, -, -, rfl⟩ := mem_decimal.1 member
    exact point hw
  | double =>
    rcases mem_double.1 member with ⟨w, f, e, hw, -, -, -, rfl⟩ | ⟨w, e, hw, nonempty, -, rfl⟩
    · exact point hw
    · exact digits hw nonempty

lemma unsigned_mem (read : unsigned? cs = some (kind, v)) : v ∈ unsigned kind := by
  rcases digits_point_or_no_point cs with ⟨w, f, r, rfl, whole, fraction, stop⟩ |
    ⟨w, r, rfl, whole, stop⟩
  · rw [unsigned?_of_point whole fraction stop] at read
    split at read
    · next e he =>
      split at read
      · cases read
      · next nonempty =>
        obtain ⟨rfl, rfl⟩ : NumberKind.double = kind ∧ w ++ '.' :: f ++ e = v := by
          simpa using read
        refine mem_double.2 (.inl ⟨w, f, e, whole, fraction, ?_, exponent_mem he, by simp⟩)
        by_contra none
        simp_all
    · split at read
      · next nonempty =>
        obtain ⟨rfl, rfl⟩ : NumberKind.decimal = kind ∧ w ++ '.' :: f = v := by simpa using read
        exact mem_decimal.2 ⟨w, f, whole, fraction, by simpa using nonempty, rfl⟩
      · split at read
        · next nonempty =>
          obtain ⟨rfl, rfl⟩ : NumberKind.integer = kind ∧ w = v := by simpa using read
          exact mem_integer.2 ⟨by simpa using nonempty, whole⟩
        · cases read
  · rw [unsigned?_of_no_point whole stop] at read
    split at read
    · cases read
    · next nonempty =>
      have nonempty : w ≠ [] := by simpa using nonempty
      split at read
      · next e he =>
        obtain ⟨rfl, rfl⟩ : NumberKind.double = kind ∧ w ++ e = v := by simpa using read
        exact mem_double.2 (.inr ⟨w, e, whole, nonempty, exponent_mem he, rfl⟩)
      · obtain ⟨rfl, rfl⟩ : NumberKind.integer = kind ∧ w = v := by simpa using read
        exact mem_integer.2 ⟨nonempty, whole⟩

section Found

variable {f r : List Char}

/-- In front of a point that a digit stands beside, what is read holds the point and the fraction,
and the exponent if there is one. -/
lemma exists_unsigned?_of_point (whole : ∀ c ∈ w, isDigit c = true)
    (fraction : ∀ c ∈ f, isDigit c = true) (stop : r.head?.any isDigit = false)
    (within : v = w ++ '.' :: f ∧ f ≠ [] ∨
      ∃ e, v = w ++ '.' :: (f ++ e) ∧ (w ≠ [] ∨ f ≠ []) ∧ e ∈ exponent ∧ e <+: r) :
    ∃ kind x, unsigned? (w ++ '.' :: (f ++ r)) = some (kind, x) ∧ v <+: x := by
  rw [unsigned?_of_point whole fraction stop]
  rcases within with ⟨rfl, nonempty⟩ | ⟨e, rfl, nonempty, member, atHead⟩
  · cases exponent? r with
    | none => exact ⟨.decimal, w ++ '.' :: f, by simp [nonempty], List.prefix_rfl⟩
    | some e => exact ⟨.double, w ++ '.' :: f ++ e, by simp [nonempty], List.prefix_append _ _⟩
  · obtain ⟨e', read, longer⟩ := exists_exponent? member atHead
    have notNone : (w.isEmpty && f.isEmpty) = false := by
      rcases nonempty with h | h <;> simp [h]
    refine ⟨.double, w ++ '.' :: f ++ e', by simp [read, notNone], ?_⟩
    simpa using longer

lemma exists_unsigned?_of_no_point (whole : ∀ c ∈ w, isDigit c = true) (nonempty : w ≠ [])
    (stop : r.head?.any (fun c => isDigit c || c == '.') = false)
    (within : v = w ∨ ∃ e, v = w ++ e ∧ e ∈ exponent ∧ e <+: r) :
    ∃ kind x, unsigned? (w ++ r) = some (kind, x) ∧ v <+: x := by
  rw [unsigned?_of_no_point whole stop]
  rcases within with rfl | ⟨e, rfl, member, atHead⟩
  · cases exponent? r with
    | none => exact ⟨.integer, v, by simp [nonempty], List.prefix_rfl⟩
    | some e => exact ⟨.double, v ++ e, by simp [nonempty], List.prefix_append _ _⟩
  · obtain ⟨e', read, longer⟩ := exists_exponent? member atHead
    refine ⟨.double, w ++ e', by simp [read, nonempty], ?_⟩
    exact (List.prefix_append_right_inj w).2 longer

lemma exists_unsigned?_of_digits (whole : ∀ c ∈ w, isDigit c = true) (nonempty : w ≠ [])
    (fraction : ∀ c ∈ f, isDigit c = true) (stop : r.head?.any isDigit = false) :
    ∃ kind x, unsigned? (w ++ '.' :: (f ++ r)) = some (kind, x) ∧ w <+: x := by
  rw [unsigned?_of_point whole fraction stop]
  cases exponent? r with
  | some e => exact ⟨.double, w ++ ('.' :: f ++ e), by simp [nonempty], List.prefix_append _ _⟩
  | none =>
    by_cases empty : f = []
    · exact ⟨.integer, w, by simp [empty, nonempty], List.prefix_rfl⟩
    · exact ⟨.decimal, w ++ '.' :: f, by simp [empty], List.prefix_append _ _⟩

end Found

lemma stop_of_mem_exponent (member : e ∈ exponent) :
    e ≠ [] ∧ e.head?.any (fun c => isDigit c || c == '.') = false := by
  obtain ⟨c, rest, rfl, rfl | rfl⟩ := head?_of_mem_exponent member <;>
    exact ⟨List.cons_ne_nil _ _, rfl⟩

section Cut

variable {f r : List Char}

lemma notDigit_atPoint (x : List Char) : ('.' :: x).head?.any isDigit = false := rfl

lemma notDigit_of_stop (stop : r.head?.any (fun c => isDigit c || c == '.') = false) :
    r.head?.any isDigit = false :=
  head?_any_mono (fun c hc => by simp [hc]) stop

/-- Where there is a number without a sign in front of digits, a point and more digits, one is read
that is at least as long. -/
lemma exists_unsigned?_atPoint (member : v ∈ unsigned kind)
    (atHead : v <+: w ++ '.' :: (f ++ r)) (whole : ∀ c ∈ w, isDigit c = true)
    (fraction : ∀ c ∈ f, isDigit c = true) (stop : r.head?.any isDigit = false) :
    ∃ kind x, unsigned? (w ++ '.' :: (f ++ r)) = some (kind, x) ∧ v <+: x := by
  cases kind with
  | integer =>
    obtain ⟨nonempty, all⟩ := mem_integer.1 member
    have within := prefix_of_run all whole (notDigit_atPoint _) atHead
    have nonempty' : w ≠ [] := by
      rintro rfl
      exact nonempty (List.prefix_nil.1 within)
    obtain ⟨kind, x, read, longer⟩ := exists_unsigned?_of_digits whole nonempty' fraction stop
    exact ⟨kind, x, read, within.trans longer⟩
  | decimal =>
    obtain ⟨w', f', all, all', nonempty, rfl⟩ := mem_decimal.1 member
    obtain ⟨rfl, after⟩ :=
      run_unique all (notDigit_atPoint _) (by simp) whole (notDigit_atPoint _) atHead
    have within := prefix_of_run all' fraction stop (List.cons_prefix_cons.1 after).2
    have nonempty' : f ≠ [] := by
      rintro rfl
      exact nonempty (List.prefix_nil.1 within)
    obtain ⟨kind, x, read, longer⟩ :=
      exists_unsigned?_of_point whole fraction stop (.inl ⟨rfl, nonempty'⟩)
    refine ⟨kind, x, read, .trans ?_ longer⟩
    exact (List.prefix_append_right_inj _).2 (List.cons_prefix_cons.2 ⟨rfl, within⟩)
  | double =>
    rcases mem_double.1 member with ⟨w', f', e, all, all', nonempty, he, rfl⟩ |
      ⟨w', e, all, nonempty, he, rfl⟩
    · have letter := stop_of_mem_exponent he
      obtain ⟨rfl, after⟩ :=
        run_unique all (notDigit_atPoint _) (by simp) whole (notDigit_atPoint _) atHead
      obtain ⟨rfl, within⟩ := run_unique all' (notDigit_of_stop letter.2) letter.1 fraction stop
        (List.cons_prefix_cons.1 after).2
      exact exists_unsigned?_of_point whole fraction stop (.inr ⟨e, rfl, nonempty, he, within⟩)
    · -- the exponent would have to start with the point
      have letter := stop_of_mem_exponent he
      obtain ⟨rfl, k, after⟩ :=
        run_unique all (notDigit_of_stop letter.2) letter.1 whole (notDigit_atPoint _) atHead
      obtain ⟨c, e, rfl⟩ := List.exists_cons_of_ne_nil letter.1
      obtain ⟨rfl, -⟩ := List.cons.inj after
      cases letter.2

lemma exists_unsigned?_noPoint (member : v ∈ unsigned kind) (atHead : v <+: w ++ r)
    (whole : ∀ c ∈ w, isDigit c = true)
    (stop : r.head?.any (fun c => isDigit c || c == '.') = false) :
    ∃ kind x, unsigned? (w ++ r) = some (kind, x) ∧ v <+: x := by
  have noPoint : ∀ {w' x : List Char}, (∀ c ∈ w', isDigit c = true) →
      ¬w' ++ '.' :: x <+: w ++ r := by
    intro w' x all atHead
    obtain ⟨-, k, rfl⟩ :=
      run_unique all (notDigit_atPoint _) (by simp) whole (notDigit_of_stop stop) atHead
    cases stop
  cases kind with
  | integer =>
    obtain ⟨nonempty, all⟩ := mem_integer.1 member
    have within := prefix_of_run all whole (notDigit_of_stop stop) atHead
    have nonempty' : w ≠ [] := by
      rintro rfl
      exact nonempty (List.prefix_nil.1 within)
    obtain ⟨kind, x, read, longer⟩ := exists_unsigned?_of_no_point whole nonempty' stop (.inl rfl)
    exact ⟨kind, x, read, within.trans longer⟩
  | decimal =>
    obtain ⟨w', f', all, -, -, rfl⟩ := mem_decimal.1 member
    exact absurd atHead (noPoint all)
  | double =>
    rcases mem_double.1 member with ⟨w', f', e, all, -, -, -, rfl⟩ |
      ⟨w', e, all, nonempty, he, rfl⟩
    · exact absurd atHead (noPoint all)
    · have letter := stop_of_mem_exponent he
      obtain ⟨rfl, within⟩ := run_unique all (notDigit_of_stop letter.2) letter.1 whole
        (notDigit_of_stop stop) atHead
      exact exists_unsigned?_of_no_point whole nonempty stop (.inr ⟨e, rfl, he, within⟩)

end Cut

lemma exists_unsigned? (member : v ∈ unsigned kind) (atHead : v <+: cs) :
    ∃ kind x, unsigned? cs = some (kind, x) ∧ v <+: x := by
  rcases digits_point_or_no_point cs with ⟨w, f, r, rfl, whole, fraction, stop⟩ |
    ⟨w, r, rfl, whole, stop⟩
  · exact exists_unsigned?_atPoint member atHead whole fraction stop
  · exact exists_unsigned?_noPoint member atHead whole stop

/-! ## Numbers -/

/-- The shape of a number, by its point and its exponent. -/
def shape (v : List Char) : NumberKind :=
  if v.any (fun c => c == 'e' || c == 'E') then .double
  else if v.contains '.' then .decimal
  else .integer

/-- A number is of one shape only. -/
lemma eq_shape_of_mem (member : v ∈ number kind) : kind = shape v := by
  obtain ⟨s, hs, y, hy, rfl⟩ := Language.mem_mul.1 member
  have digits : ∀ {w : List Char}, (∀ c ∈ w, isDigit c = true) →
      w.any (fun c => c == 'e' || c == 'E') = false ∧ w.contains '.' = false := by
    intro w all
    have apart : ∀ d, isDigit d = false → d ∉ w := by
      intro d notDigit mem
      rw [all d mem] at notDigit
      cases notDigit
    have noLetter := apart 'e' (by decide)
    have noCapital := apart 'E' (by decide)
    have noPoint := apart '.' (by decide)
    refine ⟨?_, by simpa using noPoint⟩
    simp only [List.any_eq_false, Bool.or_eq_true, beq_iff_eq]
    rintro c mem (rfl | rfl)
    · exact noLetter mem
    · exact noCapital mem
  have signs : s.any (fun c => c == 'e' || c == 'E') = false ∧ s.contains '.' = false := by
    rcases hs with rfl | ⟨c, isSign, rfl⟩
    · exact ⟨rfl, rfl⟩
    · rcases (by simpa using isSign : c = '+' ∨ c = '-') with rfl | rfl <;> exact ⟨rfl, rfl⟩
  have letter : ∀ {e : List Char}, e ∈ exponent → e.any (fun c => c == 'e' || c == 'E') = true := by
    intro e he
    obtain ⟨c, rest, rfl, rfl | rfl⟩ := head?_of_mem_exponent he <;> simp
  cases kind with
  | integer =>
    have all := digits (mem_integer.1 hy).2
    simp_all [shape]
  | decimal =>
    obtain ⟨w, f, hw, hf, -, rfl⟩ := mem_decimal.1 hy
    have whole := digits hw
    have fraction := digits hf
    simp_all [shape]
  | double =>
    rcases mem_double.1 hy with ⟨w, f, e, -, -, -, he, rfl⟩ | ⟨w, e, -, -, he, rfl⟩ <;>
      simp [shape, letter he]

/-- In front of a text that starts with a number, one that is at least as long is read. -/
lemma exists_number? (member : v ∈ number kind) (atHead : v <+: cs) :
    ∃ kind x, number? cs = some (kind, x) ∧ v <+: x := by
  obtain ⟨s, hs, x, hx, rfl⟩ := Language.mem_mul.1 member
  obtain ⟨rfl, rest⟩ := sign_unique hs (head?_of_mem_unsigned hx) atHead
  obtain ⟨kind', y, hy, longer⟩ := exists_unsigned? hx rest
  exact ⟨kind', _, number?_eq_some.2 ⟨y, hy, rfl⟩, (List.prefix_append_right_inj _).2 longer⟩

/-- What is read as a number is the longest number of any shape there, and it is of the shape that
is given with it and of no other. -/
lemma isLongest_number (read : number? cs = some (kind, w)) :
    IsLongest (number .integer + number .decimal + number .double) w cs ∧
      ∀ other, w ∈ number other ↔ other = kind := by
  obtain ⟨y, hy, rfl⟩ := number?_eq_some.1 read
  have member : Lexeme.sign cs ++ y ∈ number kind :=
    Language.append_mem_mul (sign_mem cs) (unsigned_mem hy)
  have ofShape : ∀ {v : List Char}, v ∈ number .integer + number .decimal + number .double ↔
      ∃ kind, v ∈ number kind := by
    intro v
    constructor
    · rintro ((h | h) | h)
      · exact ⟨_, h⟩
      · exact ⟨_, h⟩
      · exact ⟨_, h⟩
    · rintro ⟨kind | kind | kind, h⟩
      · exact .inl (.inl h)
      · exact .inl (.inr h)
      · exact .inr h
  refine ⟨.of_atHead (ofShape.2 ⟨kind, member⟩) (number?_isPrefix read) ?_, fun other => ?_⟩
  · intro v hv atHead
    obtain ⟨other, hv⟩ := ofShape.1 hv
    obtain ⟨_, x, hx, longer⟩ := exists_number? hv atHead
    obtain ⟨-, rfl⟩ : _ ∧ _ := by simpa [read] using hx
    exact longer
  · constructor
    · intro h
      rw [eq_shape_of_mem h, eq_shape_of_mem member]
    · rintro rfl
      exact member

end SparqlFormat.Terminals
