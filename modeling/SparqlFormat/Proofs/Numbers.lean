import SparqlFormat.Lexeme.Number
import SparqlFormat.Proofs.Names

/-!
# Numbers are read back

The recogniser of numbers branches on what follows the leading digits. `unsigned?_of_point` and
`unsigned?_of_no_point` give its value on a text that is already cut into digits, point and rest;
from them it follows that a number is at the head of its text (`number?_isPrefix`) and is found
again in front of any text that does not go on with it (`number?_reread`).
-/

namespace SparqlFormat.Lexeme

/-- A character that can go on with a number. -/
def isNumberChar (c : Char) : Bool :=
  isDigit c || c == '.' || c == 'e' || c == 'E'

lemma isDigit_imp_isNumberChar (c : Char) (h : isDigit c = true) : isNumberChar c = true := by
  simp [isNumberChar, h]

/-- The characters of a number. -/
def isNumeral (c : Char) : Bool :=
  isNumberChar c || c == '+' || c == '-'

/-! ## Exponents -/

lemma exponent?_eq_none {k : List Char} (stop : k.head?.any isNumberChar = false) :
    exponent? k = none := by
  cases k with
  | nil => rfl
  | cons c k => simp_all [exponent?, isNumberChar]

/-- A sign is read back in front of a digit or a point. -/
lemma sign_append (cs : List Char) {ds : List Char} (k : List Char)
    (start : ds.head?.any (fun c => isDigit c || c == '.') = true) :
    sign (sign cs ++ ds ++ k) = sign cs := by
  cases ds with
  | nil => simp at start
  | cons d ds =>
    have start' : (isDigit d || d == '.') = true := start
    have notPlus : d ≠ '+' := by rintro rfl; exact absurd start' (by decide)
    have notMinus : d ≠ '-' := by rintro rfl; exact absurd start' (by decide)
    fun_cases sign cs <;> simp [sign, notPlus, notMinus]

lemma sign_isPrefix (cs : List Char) : cs = sign cs ++ cs.drop (sign cs).length := by
  fun_cases sign cs <;> simp

/-- An exponent is its letter, a sign and digits. -/
lemma exponent?_eq_some {cs e : List Char} (h : exponent? cs = some e) :
    ∃ c rest, cs = c :: rest ∧ (c == 'e' || c == 'E') = true ∧
      (rest.drop (sign rest).length).takeWhile isDigit ≠ [] ∧
      e = c :: (sign rest ++ (rest.drop (sign rest).length).takeWhile isDigit) := by
  cases cs with
  | nil => simp [exponent?] at h
  | cons c rest =>
    simp only [exponent?] at h
    split at h
    · next letter =>
      refine ⟨c, rest, rfl, letter, ?_⟩
      split at h
      · simp at h
      · next nonempty =>
        refine ⟨nonempty, ?_⟩
        simpa using h.symm
    · simp at h

lemma exponent?_isPrefix {cs e : List Char} (h : exponent? cs = some e) : e <+: cs := by
  obtain ⟨c, rest, rfl, -, -, rfl⟩ := exponent?_eq_some h
  refine List.cons_prefix_cons.2 ⟨rfl, ?_⟩
  conv_rhs => rw [sign_isPrefix rest]
  exact (List.prefix_append_right_inj _).2 (List.takeWhile_prefix _)

lemma sign_chars (cs : List Char) : ∀ c ∈ sign cs, isNumeral c = true := by
  fun_cases sign cs <;> simp [isNumeral]

lemma exponent?_chars {cs e : List Char} (h : exponent? cs = some e) :
    ∀ c ∈ e, isNumeral c = true := by
  obtain ⟨c, rest, -, letter, -, rfl⟩ := exponent?_eq_some h
  simp only [Bool.or_eq_true] at letter
  refine List.forall_mem_cons.2 ⟨?_, List.forall_mem_append.2 ⟨sign_chars rest, ?_⟩⟩
  · rcases letter with letter | letter <;> simp [isNumeral, isNumberChar, letter]
  · intro d mem
    simp [isNumeral, isNumberChar, of_mem_takeWhile mem]

lemma exponent?_reread {cs e k : List Char} (h : exponent? cs = some e)
    (stop : k.head?.any isDigit = false) : exponent? (e ++ k) = some e := by
  obtain ⟨c, rest, -, letter, nonempty, rfl⟩ := exponent?_eq_some h
  set s := sign rest with hs
  set ds := (rest.drop s.length).takeWhile isDigit with hds
  have digits : ∀ c ∈ ds, isDigit c = true := fun c => of_mem_takeWhile
  have hsign : sign (s ++ (ds ++ k)) = s := by
    rw [← List.append_assoc]
    refine sign_append rest k ?_
    obtain ⟨d, more, hcons⟩ := List.exists_cons_of_ne_nil nonempty
    have digit := digits d (by simp [hcons])
    simp [hcons, digit]
  have htake : ((s ++ (ds ++ k)).drop s.length).takeWhile isDigit = ds := by
    rw [List.drop_left]
    exact takeWhile_append_stop digits stop
  simp only [List.cons_append, List.append_assoc, exponent?, letter, if_true, hsign, htake]

/-! ## Numbers without a sign -/

variable {w f r : List Char}

/-- The number at the head of digits, a point, digits and the rest. -/
lemma unsigned?_of_point (whole : ∀ c ∈ w, isDigit c = true) (fraction : ∀ c ∈ f, isDigit c = true)
    (stop : r.head?.any isDigit = false) :
    unsigned? (w ++ '.' :: (f ++ r)) =
      match exponent? r with
      | some e => if w.isEmpty && f.isEmpty then none else some (.double, w ++ '.' :: f ++ e)
      | none =>
        if !f.isEmpty then some (.decimal, w ++ '.' :: f)
        else if !w.isEmpty then some (.integer, w)
        else none := by
  have point : ('.' :: (f ++ r)).head?.any isDigit = false := rfl
  cases exponent : exponent? r <;>
    simp [unsigned?, exponent, takeWhile_append_stop whole point, dropWhile_append_stop whole point,
      takeWhile_append_stop fraction stop, dropWhile_append_stop fraction stop]

/-- The number at the head of digits and a rest without a point. -/
lemma unsigned?_of_no_point (whole : ∀ c ∈ w, isDigit c = true)
    (stop : r.head?.any (fun c => isDigit c || c == '.') = false) :
    unsigned? (w ++ r) =
      if w.isEmpty then none
      else match exponent? r with
        | some e => some (.double, w ++ e)
        | none => some (.integer, w) := by
  have stopDigit : r.head?.any isDigit = false := head?_any_mono (by simp_all) stop
  simp only [unsigned?, takeWhile_append_stop whole stopDigit,
    dropWhile_append_stop whole stopDigit]
  split
  · simp at stop
  · rfl

/-- A text is digits, a point, digits and a rest, or digits and a rest without a point. -/
lemma digits_point_or_no_point (cs : List Char) :
    (∃ w f r, cs = w ++ '.' :: (f ++ r) ∧ (∀ c ∈ w, isDigit c = true) ∧
      (∀ c ∈ f, isDigit c = true) ∧ r.head?.any isDigit = false) ∨
    ∃ w r, cs = w ++ r ∧ (∀ c ∈ w, isDigit c = true) ∧
      r.head?.any (fun c => isDigit c || c == '.') = false := by
  have cut := (List.takeWhile_append_dropWhile (p := isDigit) (l := cs)).symm
  have whole : ∀ c ∈ cs.takeWhile isDigit, isDigit c = true := fun c => of_mem_takeWhile
  have stop : ∀ xs : List Char, (xs.dropWhile isDigit).head?.any isDigit = false := by
    intro xs
    have h := List.head?_dropWhile_not isDigit xs
    cases hd : (xs.dropWhile isDigit).head? with
    | none => rfl
    | some c => simpa [hd] using h
  cases hrest : cs.dropWhile isDigit with
  | nil => exact .inr ⟨_, [], by rw [hrest] at cut; exact cut, whole, rfl⟩
  | cons c rest =>
    have notDigit : isDigit c = false := by simpa [hrest] using stop cs
    rw [hrest] at cut
    by_cases point : c = '.'
    · subst point
      refine .inl ⟨_, rest.takeWhile isDigit, rest.dropWhile isDigit, ?_, whole,
        fun c => of_mem_takeWhile, stop rest⟩
      rwa [List.takeWhile_append_dropWhile]
    · exact .inr ⟨_, c :: rest, cut, whole, by simp [notDigit, point]⟩

lemma unsigned?_isPrefix {cs x : List Char} {kind : NumberKind}
    (h : unsigned? cs = some (kind, x)) : x <+: cs := by
  rcases digits_point_or_no_point cs with ⟨w, f, r, rfl, whole, fraction, stop⟩ |
    ⟨w, r, rfl, whole, stop⟩
  · rw [unsigned?_of_point whole fraction stop] at h
    split at h
    · next e he =>
      obtain ⟨rest, rfl⟩ := exponent?_isPrefix he
      split at h
      · simp at h
      · obtain ⟨-, rfl⟩ : _ ∧ w ++ '.' :: f ++ e = x := by simpa using h
        exact ⟨rest, by simp⟩
    · split at h
      · obtain ⟨-, rfl⟩ : _ ∧ w ++ '.' :: f = x := by simpa using h
        exact ⟨r, by simp⟩
      · split at h
        · obtain ⟨-, rfl⟩ : _ ∧ w = x := by simpa using h
          exact List.prefix_append _ _
        · simp at h
  · rw [unsigned?_of_no_point whole stop] at h
    split at h
    · simp at h
    · split at h
      · next e he =>
        obtain ⟨rest, rfl⟩ := exponent?_isPrefix he
        obtain ⟨-, rfl⟩ : _ ∧ w ++ e = x := by simpa using h
        exact ⟨rest, by simp⟩
      · obtain ⟨-, rfl⟩ : _ ∧ w = x := by simpa using h
        exact List.prefix_append _ _

/-- An exponent does not start with a digit. -/
lemma exponent?_head {cs e k : List Char} (h : exponent? cs = some e) :
    (e ++ k).head?.any (fun c => isDigit c || c == '.') = false := by
  obtain ⟨c, rest, -, letter, -, rfl⟩ := exponent?_eq_some h
  simp only [Bool.or_eq_true, beq_iff_eq] at letter
  rcases letter with rfl | rfl <;> rfl

lemma unsigned?_reread {cs x k : List Char} {kind : NumberKind}
    (h : unsigned? cs = some (kind, x)) (ends : k.head?.any isNumberChar = false) :
    unsigned? (x ++ k) = some (kind, x) := by
  have endsDigit : k.head?.any isDigit = false := head?_any_mono isDigit_imp_isNumberChar ends
  have endsPoint : k.head?.any (fun c => isDigit c || c == '.') = false :=
    head?_any_mono (by intro c; simp +contextual [isNumberChar]) ends
  have noExponent := exponent?_eq_none ends
  rcases digits_point_or_no_point cs with ⟨w, f, r, rfl, whole, fraction, stop⟩ |
    ⟨w, r, rfl, whole, stop⟩
  · rw [unsigned?_of_point whole fraction stop] at h
    split at h
    · next e he =>
      split at h
      · simp at h
      · next nonempty =>
        obtain ⟨rfl, rfl⟩ : NumberKind.double = kind ∧ w ++ '.' :: f ++ e = x := by simpa using h
        have hstop : (e ++ k).head?.any isDigit = false :=
          head?_any_mono (by simp_all) (exponent?_head he)
        have hcut : w ++ '.' :: f ++ e ++ k = w ++ '.' :: (f ++ (e ++ k)) := by simp
        rw [hcut, unsigned?_of_point whole fraction hstop, exponent?_reread he endsDigit]
        simp [nonempty]
    · split at h
      · next nonempty =>
        obtain ⟨rfl, rfl⟩ : NumberKind.decimal = kind ∧ w ++ '.' :: f = x := by simpa using h
        have hcut : w ++ '.' :: f ++ k = w ++ '.' :: (f ++ k) := by simp
        rw [hcut, unsigned?_of_point whole fraction endsDigit, noExponent]
        simp [nonempty]
      · split at h
        · next nonempty =>
          obtain ⟨rfl, rfl⟩ : NumberKind.integer = kind ∧ w = x := by simpa using h
          rw [unsigned?_of_no_point whole endsPoint, noExponent]
          simpa using nonempty
        · simp at h
  · rw [unsigned?_of_no_point whole stop] at h
    split at h
    · simp at h
    · next nonempty =>
      split at h
      · next e he =>
        obtain ⟨rfl, rfl⟩ : NumberKind.double = kind ∧ w ++ e = x := by simpa using h
        rw [List.append_assoc, unsigned?_of_no_point whole (exponent?_head he),
          exponent?_reread he endsDigit]
        simp [nonempty]
      · obtain ⟨rfl, rfl⟩ : NumberKind.integer = kind ∧ w = x := by simpa using h
        rw [unsigned?_of_no_point whole endsPoint, noExponent]
        simp [nonempty]

/-! ## Numbers -/

/-- A number is a sign and a number without one. -/
lemma number?_eq_some {cs x : List Char} {kind : NumberKind} :
    number? cs = some (kind, x) ↔
      ∃ y, unsigned? (cs.drop (sign cs).length) = some (kind, y) ∧ x = sign cs ++ y := by
  simp only [number?, Option.map_eq_some_iff, Prod.mk.injEq, Prod.exists]
  constructor
  · rintro ⟨a, y, hy, rfl, rfl⟩
    exact ⟨y, hy, rfl⟩
  · rintro ⟨y, hy, rfl⟩
    exact ⟨kind, y, hy, rfl, rfl⟩

/-- A number without a sign starts with a digit or with its point. -/
lemma unsigned?_head {cs x : List Char} {kind : NumberKind} (h : unsigned? cs = some (kind, x)) :
    x.head?.any (fun c => isDigit c || c == '.') = true := by
  rcases digits_point_or_no_point cs with ⟨w, f, r, rfl, whole, fraction, stop⟩ |
    ⟨w, r, rfl, whole, stop⟩
  · rw [unsigned?_of_point whole fraction stop] at h
    cases w with
    | nil => split at h <;> (try split at h) <;> simp_all <;> simp [← h.2]
    | cons d w =>
      have digit := whole d (by simp)
      split at h <;> (try split at h) <;> simp_all <;> simp [← h.2, digit]
  · rw [unsigned?_of_no_point whole stop] at h
    cases w with
    | nil => simp at h
    | cons d w =>
      have digit := whole d (by simp)
      split at h
      · simp at h
      · split at h <;> simp_all <;> simp [← h.2, digit]

lemma number?_isPrefix {cs x : List Char} {kind : NumberKind} (h : number? cs = some (kind, x)) :
    x <+: cs := by
  obtain ⟨y, hy, rfl⟩ := number?_eq_some.1 h
  conv_rhs => rw [sign_isPrefix cs]
  exact (List.prefix_append_right_inj _).2 (unsigned?_isPrefix hy)

lemma number?_reread {cs x k : List Char} {kind : NumberKind} (h : number? cs = some (kind, x))
    (ends : k.head?.any isNumberChar = false) : number? (x ++ k) = some (kind, x) := by
  obtain ⟨y, hy, rfl⟩ := number?_eq_some.1 h
  have hsign : sign (sign cs ++ y ++ k) = sign cs := sign_append cs k (unsigned?_head hy)
  refine number?_eq_some.2 ⟨y, ?_, by rw [hsign]⟩
  rw [hsign, List.append_assoc, List.drop_left]
  exact unsigned?_reread hy ends

lemma number?_chars {cs x : List Char} {kind : NumberKind} (h : number? cs = some (kind, x)) :
    ∀ c ∈ x, isNumeral c = true := by
  obtain ⟨y, hy, rfl⟩ := number?_eq_some.1 h
  refine List.forall_mem_append.2 ⟨sign_chars cs, ?_⟩
  have digits : ∀ {w : List Char}, (∀ c ∈ w, isDigit c = true) → ∀ c ∈ w, isNumeral c = true := by
    intro w whole c mem
    simp [isNumeral, isNumberChar, whole c mem]
  have point : isNumeral '.' = true := rfl
  rcases digits_point_or_no_point (cs.drop (sign cs).length) with
    ⟨w, f, r, cut, whole, fraction, stop⟩ | ⟨w, r, cut, whole, stop⟩
  · rw [cut, unsigned?_of_point whole fraction stop] at hy
    have mantissa : ∀ c ∈ w ++ '.' :: f, isNumeral c = true :=
      List.forall_mem_append.2 ⟨digits whole, List.forall_mem_cons.2 ⟨point, digits fraction⟩⟩
    split at hy
    · next e he =>
      split at hy
      · contradiction
      · obtain ⟨-, rfl⟩ : _ ∧ w ++ '.' :: f ++ e = y := by simpa using hy
        exact List.forall_mem_append.2 ⟨mantissa, exponent?_chars he⟩
    · split at hy
      · obtain ⟨-, rfl⟩ : _ ∧ w ++ '.' :: f = y := by simpa using hy
        exact mantissa
      · split at hy
        · obtain ⟨-, rfl⟩ : _ ∧ w = y := by simpa using hy
          exact digits whole
        · contradiction
  · rw [cut, unsigned?_of_no_point whole stop] at hy
    split at hy
    · contradiction
    · split at hy
      · next e he =>
        obtain ⟨-, rfl⟩ : _ ∧ w ++ e = y := by simpa using hy
        exact List.forall_mem_append.2 ⟨digits whole, exponent?_chars he⟩
      · obtain ⟨-, rfl⟩ : _ ∧ w = y := by simpa using hy
        exact digits whole

/-- A sign in front of neither a digit nor a point is no number. -/
lemma number?_sign_eq_none {c : Char} {k : List Char} (isSign : c = '+' ∨ c = '-')
    (stop : k.head?.any (fun c => isDigit c || c == '.') = false) : number? (c :: k) = none := by
  have none := unsigned?_of_no_point (w := []) (by simp) stop
  rcases isSign with rfl | rfl <;> simpa [number?, sign] using none

end SparqlFormat.Lexeme
