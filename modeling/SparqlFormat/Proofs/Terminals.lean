import Mathlib.Computability.Language
import Mathlib.Tactic.Common
import Mathlib.Tactic.Lemma
import SparqlFormat.Lexeme.Class
import SparqlFormat.Text.Blank
import SparqlFormat.Token.Basic

/-!
# The terminals as languages

The grammar of the query language gives its terminals as regular expressions (section 19.8 of
SPARQL 1.1). They are written down here as such, with union, concatenation and repetition of
languages, and without regard to how a text is read: nothing in these definitions says which of
several matches is found, or in what order.

Two things differ from the standard. Code point escapes stand inside identifiers and strings, where
the standard has them replaced beforehand. A number may have a sign.

The lemmas of this module look at the first character of a member, which is all that the
recognisers look at.
-/

namespace SparqlFormat.Terminals

open Computability Lexeme

/-! ## Pieces of expressions -/

/-- The texts of one character of a class. -/
def one (p : Char → Bool) : Language Char :=
  {w | ∃ c, p c = true ∧ w = [c]}

/-- One fixed text. -/
def exactly (w : List Char) : Language Char :=
  {w}

/-- Some members of a language, at least one, in a row. -/
def repeated (l : Language Char) : Language Char :=
  l * l∗

/-- Nothing, or a row of members and dots that ends with a member. -/
def undotted (l : Language Char) : Language Char :=
  1 + (l + exactly ['.'])∗ * l

/-! ## Names -/

/-- PN_PREFIX -/
def prefixPart : Language Char :=
  one isNameBase * undotted (one isNameTail)

/-- PLX: a percent sign with two hexadecimal digits, or a backslash with a mark. -/
def localEscape : Language Char :=
  exactly ['%'] * (one isHex * one isHex) + exactly ['\\'] * one localEscapes.contains

/-- PN_LOCAL -/
def localPart : Language Char :=
  (one (fun c => isLabelStart c || c == ':') + localEscape) *
    undotted (one (fun c => isNameTail c || c == ':') + localEscape)

/-- PNAME_NS and PNAME_LN -/
def prefixedName : Language Char :=
  (1 + prefixPart) * (exactly [':'] * (1 + localPart))

/-- VAR1 and VAR2 -/
def variableName : Language Char :=
  one (fun c => c == '?' || c == '$') * (one isLabelStart * (one isVariableTail)∗)

/-- BLANK_NODE_LABEL -/
def blankNodeLabel : Language Char :=
  exactly ['_', ':'] * (one isLabelStart * undotted (one isNameTail))

/-- LANGTAG -/
def languageTag : Language Char :=
  exactly ['@'] * (repeated (one isLetter) *
    (exactly ['-'] * repeated (one isLetterOrDigit))∗)

/-! ## Identifiers and strings -/

/-- UCHAR: a code point by its number. -/
def codePoint : Language Char :=
  exactly ['\\', 'u'] * one isHex ^ 4 + exactly ['\\', 'U'] * one isHex ^ 8

/-- ECHAR: a backslash with a letter or mark. -/
def escape : Language Char :=
  exactly ['\\'] * one stringEscapes.contains

/-- IRIREF -/
def identifier : Language Char :=
  exactly ['<'] * ((one isIriChar + codePoint)∗ * exactly ['>'])

/-- What stands for one character of a short string. -/
def shortUnit (quote : Char) : Language Char :=
  one (fun c => !(c == quote || c == '\\' || isLineBreak c)) + (escape + codePoint)

/-- What stands for one character of a long string that is no quotation mark. -/
def longUnit (quote : Char) : Language Char :=
  one (fun c => !(c == quote || c == '\\')) + (escape + codePoint)

/-- A piece of a long string: such a unit, with up to two marks before it. -/
def longPiece (quote : Char) : Language Char :=
  (1 + (exactly [quote] + exactly [quote, quote])) * longUnit quote

/-- STRING_LITERAL1 and STRING_LITERAL2, by the mark. -/
def shortString (quote : Char) : Language Char :=
  exactly [quote] * ((shortUnit quote)∗ * exactly [quote])

/-- STRING_LITERAL_LONG1 and STRING_LITERAL_LONG2, by the mark. -/
def longString (quote : Char) : Language Char :=
  exactly [quote, quote, quote] * ((longPiece quote)∗ * exactly [quote, quote, quote])

/-- The four forms of a string. -/
def string : Language Char :=
  shortString '\'' + shortString '"' + (longString '\'' + longString '"')

/-! ## Numbers -/

/-- A sign, or nothing. -/
def sign : Language Char :=
  1 + one (fun c => c == '+' || c == '-')

/-- Digits, at least one. -/
def digits : Language Char :=
  repeated (one isDigit)

/-- EXPONENT -/
def exponent : Language Char :=
  one (fun c => c == 'e' || c == 'E') * (sign * digits)

/-- INTEGER, DECIMAL and DOUBLE, by the shape. -/
def unsigned : NumberKind → Language Char
  | .integer => digits
  | .decimal => (one isDigit)∗ * (exactly ['.'] * digits)
  | .double =>
    digits * (exactly ['.'] * ((one isDigit)∗ * exponent)) +
      exactly ['.'] * (digits * exponent) + digits * exponent

/-- A number of the given shape, with its sign. -/
def number (kind : NumberKind) : Language Char :=
  sign * unsigned kind

/-! ## Brackets -/

/-- NIL and ANON, by the brackets: nothing but blanks stands between them. -/
def emptyBrackets (opening closing : Char) : Language Char :=
  exactly [opening] * ((one isBlank)∗ * exactly [closing])

/-- The terminal that the characters of a token belong to; none for a comment, a word and a mark
of one spelling. -/
def ofToken? : Token → Option (Language Char)
  | .mark .emptyParens => some (emptyBrackets '(' ')')
  | .mark .emptyBrackets => some (emptyBrackets '[' ']')
  | .number _ _ => some (number .integer + number .decimal + number .double)
  | .language _ => some languageTag
  | .var _ => some variableName
  | .string _ => some string
  | .blankNode _ => some blankNodeLabel
  | .prefixed _ => some prefixedName
  | .iri _ => some identifier
  | .mark _ | .comment _ | .boolean _ | .keyword _ => none

/-! ## The first character of a member -/

section Members

variable {p : Char → Bool} {l : Language Char} {c : Char} {u v w : List Char}

@[simp] lemma cons_mem_one : c :: w ∈ one p ↔ p c = true ∧ w = [] := by
  constructor
  · rintro ⟨d, hd, e⟩
    obtain ⟨rfl, rfl⟩ := List.cons.inj e
    exact ⟨hd, rfl⟩
  · rintro ⟨hc, rfl⟩
    exact ⟨c, hc, rfl⟩

@[simp] lemma nil_notMem_one : [] ∉ one p := by
  rintro ⟨d, -, e⟩
  cases e

@[simp] lemma mem_exactly_mul : w ∈ exactly u * l ↔ ∃ v ∈ l, w = u ++ v := by
  rw [Language.mem_mul]
  constructor
  · rintro ⟨_, rfl, v, hv, rfl⟩
    exact ⟨v, hv, rfl⟩
  · rintro ⟨v, hv, rfl⟩
    exact ⟨u, rfl, v, hv, rfl⟩

lemma mem_one_mul : w ∈ one p * l ↔ ∃ c v, p c = true ∧ v ∈ l ∧ w = c :: v := by
  rw [Language.mem_mul]
  constructor
  · rintro ⟨_, ⟨c, hc, rfl⟩, v, hv, rfl⟩
    exact ⟨c, v, hc, hv, rfl⟩
  · rintro ⟨c, v, hc, hv, rfl⟩
    exact ⟨[c], ⟨c, hc, rfl⟩, v, hv, rfl⟩

@[simp] lemma cons_mem_one_mul : c :: w ∈ one p * l ↔ p c = true ∧ w ∈ l := by
  rw [mem_one_mul]
  constructor
  · rintro ⟨d, v, hd, hv, e⟩
    obtain ⟨rfl, rfl⟩ := List.cons.inj e
    exact ⟨hd, hv⟩
  · rintro ⟨hc, hw⟩
    exact ⟨c, w, hc, hw, rfl⟩

@[simp] lemma nil_notMem_one_mul : [] ∉ one p * l := by
  rw [mem_one_mul]
  rintro ⟨c, v, -, -, e⟩
  cases e

/-- A row of members starts with one that is not empty. -/
lemma cons_mem_kstar : c :: w ∈ l∗ ↔ ∃ u v, w = u ++ v ∧ c :: u ∈ l ∧ v ∈ l∗ := by
  constructor
  · intro h
    obtain ⟨rows, split, members⟩ := Language.mem_kstar_iff_exists_nonempty.1 h
    cases rows with
    | nil => cases split
    | cons row rows =>
      obtain ⟨⟨member, nonempty⟩, others⟩ := List.forall_mem_cons.1 members
      obtain ⟨d, u, rfl⟩ := List.exists_cons_of_ne_nil nonempty
      obtain ⟨rfl, rfl⟩ := List.cons.inj split
      exact ⟨u, rows.flatten, rfl, member, rows, rfl, fun y mem => (others y mem).1⟩
  · rintro ⟨u, v, rfl, member, rows, rfl, others⟩
    exact ⟨(c :: u) :: rows, rfl, List.forall_mem_cons.2 ⟨member, others⟩⟩

lemma append_mem_kstar (hu : u ∈ l) (hv : v ∈ l∗) : u ++ v ∈ l∗ :=
  mul_kstar_le_kstar (a := l) (Language.append_mem_mul hu hv)

/-- A row of members is built up from its end, one member at a time. -/
lemma kstar_induction {motive : List Char → Prop} (nil : motive [])
    (append : ∀ u ∈ l, ∀ v ∈ l∗, motive v → motive (u ++ v)) (h : w ∈ l∗) : motive w := by
  obtain ⟨rows, rfl, members⟩ := h
  induction rows with
  | nil => exact nil
  | cons row rows ih =>
    obtain ⟨member, others⟩ := List.forall_mem_cons.1 members
    exact append row member rows.flatten ⟨rows, rfl, others⟩ (ih others)

@[simp] lemma mem_kstar_one : w ∈ (one p)∗ ↔ ∀ c ∈ w, p c = true := by
  induction w with
  | nil => simp [Language.nil_mem_kstar]
  | cons c w ih =>
    rw [cons_mem_kstar, List.forall_mem_cons, ← ih]
    constructor
    · rintro ⟨u, v, rfl, hu, hv⟩
      obtain ⟨hc, rfl⟩ := cons_mem_one.1 hu
      exact ⟨hc, hv⟩
    · rintro ⟨hc, hw⟩
      exact ⟨[], w, rfl, cons_mem_one.2 ⟨hc, rfl⟩, hw⟩

@[simp] lemma mem_repeated_one : w ∈ repeated (one p) ↔ w ≠ [] ∧ ∀ c ∈ w, p c = true := by
  cases w with
  | nil => simp [repeated]
  | cons c w => simp [repeated]

lemma mem_one_pow {n : Nat} : w ∈ one p ^ n ↔ w.length = n ∧ ∀ c ∈ w, p c = true := by
  induction n generalizing w with
  | zero => cases w <;> simp
  | succ n ih =>
    rw [pow_succ']
    cases w with
    | nil => simp
    | cons c w =>
      rw [cons_mem_one_mul, ih, List.forall_mem_cons, List.length_cons, Nat.add_right_cancel_iff]
      tauto

/-- Taking a character off the front of a row of members, where it is a member by itself. -/
lemma mem_kstar_of_cons (alone : ∀ v, c :: v ∈ l → v = []) (h : c :: w ∈ l∗) : w ∈ l∗ := by
  obtain ⟨u, v, rfl, hu, hv⟩ := cons_mem_kstar.1 h
  rwa [alone u hu]

/-- Taking such characters off one by one. -/
lemma mem_kstar_of_append (alone : ∀ c ∈ u, ∀ v, c :: v ∈ l → v = []) (h : u ++ w ∈ l∗) :
    w ∈ l∗ := by
  induction u with
  | nil => exact h
  | cons c u ih =>
    obtain ⟨first, others⟩ := List.forall_mem_cons.1 alone
    exact ih others (mem_kstar_of_cons first h)

lemma nil_mem_undotted : [] ∈ undotted l :=
  .inl rfl

/-- What a text without a dot at its end starts with: a member, or a dot that more follows. -/
lemma cons_mem_undotted (nonempty : [] ∉ l) :
    c :: w ∈ undotted l ↔
      (∃ u v, w = u ++ v ∧ c :: u ∈ l ∧ v ∈ undotted l) ∨
        c = '.' ∧ w ∈ undotted l ∧ w ≠ [] := by
  have longer : ∀ u ∈ l + exactly ['.'], ∀ v ∈ (l + exactly ['.'])∗ * l, u ++ v ∈ undotted l := by
    rintro u hu v ⟨x, hx, y, hy, rfl⟩
    exact .inr ⟨u ++ x, append_mem_kstar hu hx, y, hy, List.append_assoc _ _ _⟩
  constructor
  · rintro (nil | ⟨x, hx, y, hy, split⟩)
    · cases nil
    cases x with
    | nil =>
      obtain rfl : y = c :: w := split
      exact .inl ⟨w, [], (List.append_nil w).symm, hy, nil_mem_undotted⟩
    | cons d x =>
      obtain ⟨rfl, rfl⟩ := List.cons.inj split
      obtain ⟨u, v, rfl, hu | hu, hv⟩ := cons_mem_kstar.1 hx
      · exact .inl ⟨u, v ++ y, List.append_assoc _ _ _, hu, .inr ⟨v, hv, y, hy, rfl⟩⟩
      · obtain ⟨rfl, rfl⟩ := List.cons.inj hu
        refine .inr ⟨rfl, .inr ⟨v, hv, y, hy, rfl⟩, fun empty => nonempty ?_⟩
        obtain rfl : y = [] := (List.append_eq_nil_iff.1 empty).2
        exact hy
  · rintro (⟨u, v, rfl, hu, rfl | hv⟩ | ⟨rfl, rfl | hw, notNil⟩)
    · exact .inr ⟨[], Language.nil_mem_kstar _, c :: u, hu, (List.append_nil _).symm⟩
    · exact longer (c :: u) (.inl hu) v hv
    · exact absurd rfl notNil
    · exact longer ['.'] (.inr rfl) w hw

end Members

/-! ## Longest prefixes -/

/-- Whether a text is the longest member of a language that another text starts with. -/
def IsLongest (l : Language Char) (w text : List Char) : Prop :=
  w ∈ l ∧ w <+: text ∧ ∀ v ∈ l, v <+: text → v.length ≤ w.length

/-- Whether every text starts with at most one member of a language. -/
def PrefixUnique (l : Language Char) : Prop :=
  ∀ text : List Char, ∀ v ∈ l, ∀ w ∈ l, v <+: text → w <+: text → v = w

section Longest

variable {p : Char → Bool} {l m : Language Char} {c : Char} {u v w text : List Char}

/-- A member that all others in its place are prefixes of is the longest. -/
lemma IsLongest.of_atHead (member : w ∈ l) (atHead : w <+: text)
    (longest : ∀ v ∈ l, v <+: text → v <+: w) : IsLongest l w text :=
  ⟨member, atHead, fun v hv hprefix => (longest v hv hprefix).length_le⟩

lemma IsLongest.eq_self (h : IsLongest l w text) (member : text ∈ l) : w = text :=
  h.2.1.eq_of_length_le (h.2.2 text member List.prefix_rfl)

/-- A member that stands at the head of a text is the longest there, if there is no other. -/
lemma PrefixUnique.isLongest (unique : PrefixUnique l) (member : w ∈ l) (atHead : w <+: text) :
    IsLongest l w text :=
  .of_atHead member atHead fun v hv hprefix =>
    unique text v hv w member hprefix atHead ▸ List.prefix_rfl

end Longest

end SparqlFormat.Terminals
