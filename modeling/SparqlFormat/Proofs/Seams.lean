import SparqlFormat.Grammar.Check
import SparqlFormat.Grammar.Derivation
import SparqlFormat.Proofs.Shape

/-!
# Neighbours that the grammar allows

A seam is the place where a token of one kind stands right before a token of another. Which
terminals a rule can start and end with is computed rule by rule, from a guess for the
nonterminals; if every production keeps to the guess and lets no seam arise between its parts,
then no row that the grammar derives holds the seam (`Derives.seamless`).

The five families of neighbours that merge are five seams of this kind, none of which the grammar
allows (`mergeFree_of_formOfTokens?`).
-/

namespace SparqlFormat.Grammar

/-! ## Seams in a grammar -/

section Analysis

variable {N T α : Type}

/-- A seam: the terminals on either side of it, and a guess of which nonterminals cover nothing,
start with a terminal of the right side or end with one of the left side. -/
structure Seam (N T : Type) where
  left : T → Bool
  right : T → Bool
  vanishes : N → Bool
  starts : N → Bool
  ends : N → Bool

namespace Rule

variable (seam : Seam N T)

/-- Whether a rule may start with a terminal of the right side. -/
def starts : Rule N T → Bool
  | .empty => false
  | .terminal t => seam.right t
  | .call n => seam.starts n
  | .seq r s => r.starts || (r.vanishes seam.vanishes && s.starts)
  | .alt r s => r.starts || s.starts
  | .star r => r.starts
  | .opt r => r.starts

/-- Whether a rule may end with a terminal of the left side. -/
def ends : Rule N T → Bool
  | .empty => false
  | .terminal t => seam.left t
  | .call n => seam.ends n
  | .seq r s => s.ends || (s.vanishes seam.vanishes && r.ends)
  | .alt r s => r.ends || s.ends
  | .star r => r.ends
  | .opt r => r.ends

/-- Whether the seam does not arise between two parts of a rule. -/
def seamless : Rule N T → Bool
  | .empty => true
  | .terminal _ => true
  | .call _ => true
  | .seq r s => r.seamless && s.seamless && !(r.ends seam && s.starts seam)
  | .alt r s => r.seamless && s.seamless
  | .star r => r.seamless && !(r.ends seam && r.starts seam)
  | .opt r => r.seamless

end Rule

/-- Whether a production keeps to the guess and is without the seam. -/
def Seam.closed (seam : Seam N T) (n : N) (r : Rule N T) : Bool :=
  (!r.vanishes seam.vanishes || seam.vanishes n) && (!r.starts seam || seam.starts n) &&
    (!r.ends seam || seam.ends n) && r.seamless seam

/-- What a derivation from a rule without the seam shows of its row. -/
structure Seam.Holds (seam : Seam N T) (before after : α → Bool) (r : Rule N T) (row : List α) :
    Prop where
  vanishes : row = [] → r.vanishes seam.vanishes = true
  starts : ∀ a ∈ row.head?, after a = true → r.starts seam = true
  ends : ∀ a ∈ row.getLast?, before a = true → r.ends seam = true
  apart : row.IsChain fun a b => (before a && after b) = false

variable {g : System N T α} {seam : Seam N T} {before after : α → Bool}

namespace Seam.Holds

lemma seq {v w : List α} {r s : Rule N T} (hv : seam.Holds before after r v)
    (hw : seam.Holds before after s w) (noSeam : (r.ends seam && s.starts seam) = false) :
    seam.Holds before after (.seq r s) (v ++ w) where
  vanishes empty := by
    obtain ⟨rfl, rfl⟩ := List.append_eq_nil_iff.1 empty
    simp [Rule.vanishes, hv.vanishes rfl, hw.vanishes rfl]
  starts a head isAfter := by
    cases v with
    | nil => simp [Rule.starts, hv.vanishes rfl, hw.starts a head isAfter]
    | cons b v => simp [Rule.starts, hv.starts a head isAfter]
  ends a last isBefore := by
    cases w with
    | nil =>
      rw [List.append_nil] at last
      simp [Rule.ends, hw.vanishes rfl, hv.ends a last isBefore]
    | cons b w =>
      rw [List.getLast?_append_cons] at last
      simp [Rule.ends, hw.ends a last isBefore]
  apart := by
    refine List.isChain_append.2 ⟨hv.apart, hw.apart, ?_⟩
    intro a ha b hb
    by_contra both
    simp only [Bool.not_eq_false, Bool.and_eq_true] at both
    rw [hv.ends a ha both.1, hw.starts b hb both.2] at noSeam
    contradiction

lemma mono {row : List α} {r s : Rule N T} (h : seam.Holds before after r row)
    (vanishes : r.vanishes seam.vanishes = true → s.vanishes seam.vanishes = true)
    (starts : r.starts seam = true → s.starts seam = true)
    (ends : r.ends seam = true → s.ends seam = true) : seam.Holds before after s row where
  vanishes empty := vanishes (h.vanishes empty)
  starts a head isAfter := starts (h.starts a head isAfter)
  ends a last isBefore := ends (h.ends a last isBefore)
  apart := h.apart

lemma nil {r : Rule N T} (vanishes : r.vanishes seam.vanishes = true) :
    seam.Holds before after r ([] : List α) :=
  ⟨fun _ => vanishes, by simp, by simp, .nil⟩

end Seam.Holds

/-- No row derived from a rule without a seam holds the seam. -/
theorem Derives.seamless
    (covered : ∀ t a, g.covers t a = true →
      (before a = true → seam.left t = true) ∧ (after a = true → seam.right t = true))
    (closed : ∀ n, seam.closed n (g.production n) = true) {r : Rule N T} {row : List α}
    (h : Derives g r row) (noSeam : r.seamless seam = true) : seam.Holds before after r row := by
  induction h with
  | empty => exact .nil rfl
  | terminal hcovers =>
    obtain ⟨left, right⟩ := covered _ _ hcovers
    exact ⟨by simp, by simpa [Rule.starts] using right, by simpa [Rule.ends] using left,
      .singleton _⟩
  | @call n w _ ih =>
    have hn := closed n
    simp only [Seam.closed, Bool.and_eq_true, Bool.or_eq_true, Bool.not_eq_true'] at hn
    obtain ⟨⟨⟨hvanishes, hstarts⟩, hends⟩, hseamless⟩ := hn
    refine (ih hseamless).mono ?_ ?_ ?_ <;> intro h <;> simp_all [Rule.vanishes, Rule.starts,
      Rule.ends]
  | seq _ _ ihr ihs =>
    simp only [Rule.seamless, Bool.and_eq_true, Bool.not_eq_true'] at noSeam
    exact (ihr noSeam.1.1).seq (ihs noSeam.1.2) noSeam.2
  | altLeft _ ih =>
    simp only [Rule.seamless, Bool.and_eq_true] at noSeam
    refine (ih noSeam.1).mono ?_ ?_ ?_ <;> intro h <;> simp [Rule.vanishes, Rule.starts,
      Rule.ends, h]
  | altRight _ ih =>
    simp only [Rule.seamless, Bool.and_eq_true] at noSeam
    refine (ih noSeam.2).mono ?_ ?_ ?_ <;> intro h <;> simp [Rule.vanishes, Rule.starts,
      Rule.ends, h]
  | starNil => exact .nil rfl
  | @starCons r _ _ _ _ ihr ihs =>
    have repeated := ihs noSeam
    simp only [Rule.seamless, Bool.and_eq_true, Bool.not_eq_true'] at noSeam
    refine ((ihr noSeam.1).seq repeated noSeam.2).mono (fun _ => rfl) ?_ ?_
    · intro h
      simp only [Rule.starts, Bool.or_eq_true, Bool.and_eq_true] at h ⊢
      exact h.elim id And.right
    · intro h
      simpa [Rule.ends, Rule.vanishes] using h
  | optNone => exact .nil rfl
  | optSome _ ih =>
    refine (ih noSeam).mono ?_ ?_ ?_ <;> intro h <;> simp_all [Rule.vanishes, Rule.starts,
      Rule.ends, Rule.seamless]

end Analysis

/-! ## The grammar as a whole -/

deriving instance DecidableEq for Nonterminal

/-- Nonterminals are checked by number, so that one evaluation goes through all of them: the words
of the grammar are read off once. -/
lemma forall_nonterminal {p : Nonterminal → Bool}
    (checked : (List.range 78).all (fun i => p (.ofNat i)) = true) (n : Nonterminal) :
    p n = true := by
  have bounded : n.ctorIdx < 78 := by
    cases n <;> decide
  rw [← Nonterminal.ofNat_ctorIdx n]
  exact List.all_eq_true.1 checked _ (List.mem_range.2 bounded)

/-- The recogniser decides what the grammar derives. -/
theorem sparql_grounded : Grounded sparql where
  vanishes n := beq_iff_eq.1 (forall_nonterminal
    (p := fun n => (production n).vanishes mayVanish == mayVanish n) (by decide +kernel) n)
  reaches := forall_nonterminal (by decide +kernel)

/-! ## The seams of neighbours that merge -/

/-- The families of neighbours that merge. -/
inductive Merger
  | notEqual
  | typed
  | either
  | identifier
  | direction
  deriving DecidableEq

namespace Merger

/-- The tokens that merge with the next one. -/
def before : Merger → Token → Bool
  | .notEqual, t => t.isMark .bang
  | .typed, t => t.isMark .caret
  | .either, t => t.isMark .bar
  | .identifier, t => t.isMark .below || t.isMark .atMost
  | .direction, t => t.isWord Layout.sortWords

/-- The tokens that merge with the one before. -/
def after : Merger → Token → Bool
  | .notEqual, t => t.isMark .equal
  | .typed, t => t.isMark .typed
  | .either, t => t.isMark .bar || t.isMark .either
  | .identifier, t => t.isMark .closeParen || t.isLanguage
  | .direction, t => !(t.isMark .openParen || t.isMark .emptyParens || t.isComment)

end Merger

lemma merging_iff (left right : Token) :
    merging left right = true ↔ ∃ m : Merger, (m.before left && m.after right) = true := by
  constructor
  · intro h
    simp only [merging, Bool.or_eq_true] at h
    rcases h with (((h | h) | h) | h) | h
    exacts [⟨.notEqual, h⟩, ⟨.typed, h⟩, ⟨.either, h⟩, ⟨.identifier, h⟩, ⟨.direction, h⟩]
  · rintro ⟨m, h⟩
    unfold merging
    cases m <;> simp only [Merger.before, Merger.after] at h <;> rw [h] <;> simp

/-- A token that a terminal covers. -/
def Terminal.sample : Terminal → Token
  | .mark m => .mark m
  | .word w => .keyword w
  | .var => .var []
  | .iri => .iri []
  | .prefixedName => .prefixed []
  | .declaredPrefix => .prefixed []
  | .string => .string []
  | .language => .language []
  | .number => .number .integer []
  | .unsignedInteger => .number .integer []
  | .signedNumber => .number .integer []
  | .boolean => .boolean []
  | .blankNode => .blankNode []

/-- Tokens that one terminal covers are alike to whatever looks at marks, words, comments and
language tags only. -/
lemma sample_alike {x : Terminal} {t : Token} (h : x.covers t = true) :
    (∀ m, t.isMark m = x.sample.isMark m) ∧ (∀ ws, t.isWord ws = x.sample.isWord ws) ∧
      t.isComment = x.sample.isComment ∧ t.isLanguage = x.sample.isLanguage := by
  cases x with
  | mark mark =>
    obtain rfl := (Token.isMark_iff mark t).1 h
    exact ⟨fun _ => rfl, fun _ => rfl, rfl, rfl⟩
  | word w =>
    cases t <;> simp only [Terminal.covers, Bool.false_eq_true, beq_iff_eq] at h
    subst h
    exact ⟨fun _ => rfl, fun _ => rfl, rfl, rfl⟩
  | _ =>
    cases t <;> simp only [Terminal.covers, Bool.false_eq_true] at h
    all_goals exact ⟨fun _ => rfl, fun _ => rfl, rfl, rfl⟩

lemma merger_sample (m : Merger) {x : Terminal} {t : Token} (h : x.covers t = true) :
    m.before t = m.before x.sample ∧ m.after t = m.after x.sample := by
  obtain ⟨isMark, isWord, isComment, isLanguage⟩ := sample_alike h
  cases m <;> simp only [Merger.before, Merger.after, isMark, isWord, isComment, isLanguage,
    and_self]

/-- The nonterminals that may start with the right side of the seam of a family: no token of the
first four families starts one, and only an expression in parentheses starts as a sort direction
asks for. -/
def Merger.mayStart (m : Merger) : Nonterminal → Bool
  | .bracketted => false
  | _ => m == .direction

/-- The seam of a family. No nonterminal ends with the left side of it. -/
def Merger.seam (m : Merger) : Seam Nonterminal Terminal where
  left x := m.before x.sample
  right x := m.after x.sample
  vanishes := mayVanish
  starts := m.mayStart
  ends _ := false

lemma production_closed (m : Merger) : ∀ n, m.seam.closed n (production n) = true :=
  forall_nonterminal (by cases m <;> decide +kernel)

/-- No two neighbours merge in a row that the grammar derives. -/
theorem mergeFree_of_derives {n : Nonterminal} {row : List Token}
    (h : Derives sparql (.call n) row) : MergeFree row := by
  have apart : ∀ m : Merger, row.IsChain fun a b => (m.before a && m.after b) = false := by
    intro m
    have covered : ∀ x t, sparql.covers x t = true →
        (m.before t = true → m.seam.left x = true) ∧
          (m.after t = true → m.seam.right x = true) := by
      intro x t covers
      obtain ⟨left, right⟩ := merger_sample m covers
      exact ⟨fun h => left.symm.trans h, fun h => right.symm.trans h⟩
    exact (h.seamless covered (production_closed m) rfl).apart
  have all : row.IsChain fun a b => ∀ m : Merger, (m.before a && m.after b) = false := by
    clear h
    induction row with
    | nil => exact .nil
    | cons a row ih =>
      refine List.isChain_cons.2 ⟨fun b hb m => (List.isChain_cons.1 (apart m)).1 b hb, ih ?_⟩
      exact fun m => (List.isChain_cons.1 (apart m)).2
  refine all.imp fun a b none => ?_
  by_contra merge
  obtain ⟨m, both⟩ := (merging_iff a b).1 (by simpa using merge)
  rw [none m] at both
  contradiction

/-! ## Rows that the grammar accepts -/

lemma mergeFree_cons {t : Token} {ts : List Token} :
    MergeFree (t :: ts) ↔ (∀ u ∈ ts.head?, merging t u = false) ∧ MergeFree ts :=
  List.isChain_cons

lemma mergeFree_bracket {m : Mark} (bracket : m ∈ [.openParen, .closeParen, .openBracket,
      .closeBracket, .emptyParens, .emptyBrackets]) (ts : List Token) :
    MergeFree (.mark m :: ts) ↔ MergeFree ts := by
  have none : ∀ u, merging (.mark m) u = false := by
    intro u
    simp only [List.mem_cons, List.not_mem_nil, or_false] at bracket
    rcases bracket with rfl | rfl | rfl | rfl | rfl | rfl <;> rfl
  rw [mergeFree_cons]
  exact ⟨And.right, fun h => ⟨fun u _ => none u, h⟩⟩

/-- Empty brackets merge with their neighbours exactly when the brackets did: the token before a
row whose empty brackets are closed, and the row itself. -/
lemma merging_closeEmptyBrackets (ts : List Token) :
    (∀ t, (∀ u ∈ (closeEmptyBrackets ts).head?, merging t u = false) ↔
      ∀ u ∈ ts.head?, merging t u = false) ∧
    (MergeFree (closeEmptyBrackets ts) ↔ MergeFree ts) := by
  induction ts using hollowInduction with
  | nil => exact ⟨fun _ => Iff.rfl, Iff.rfl⟩
  | singleton t => exact ⟨fun _ => by simp, by simp⟩
  | full left right ts full ih =>
    rw [closeEmptyBrackets_of_full full]
    refine ⟨fun t => by simp, ?_⟩
    rw [mergeFree_cons, ih.1 left, ih.2, ← mergeFree_cons]
  | parens ts ih =>
    rw [closeEmptyBrackets_parens]
    refine ⟨fun t => by simp [merging, Token.isMark, Token.isLanguage], ?_⟩
    rw [mergeFree_bracket (by simp), ih.2, mergeFree_bracket (by simp),
      mergeFree_bracket (by simp)]
  | brackets ts ih =>
    rw [closeEmptyBrackets_brackets]
    refine ⟨fun t => by simp [merging, Token.isMark, Token.isLanguage, Token.isComment], ?_⟩
    rw [mergeFree_bracket (by simp), ih.2, mergeFree_bracket (by simp),
      mergeFree_bracket (by simp)]

lemma mergeFree_closeEmptyBrackets {ts : List Token} :
    MergeFree (closeEmptyBrackets ts) ↔ MergeFree ts :=
  (merging_closeEmptyBrackets ts).2

/-- A row that is a query or an update is derived once its empty brackets are closed. -/
theorem derives_of_formOfTokens? {ts : List Token} {form : Form}
    (h : formOfTokens? ts = some form) :
    ∃ n, Derives sparql (.call n) (closeEmptyBrackets ts) := by
  unfold formOfTokens? at h
  split at h
  · contradiction
  · split at h
    · next accepted => exact ⟨_, (recognise_iff sparql_grounded).1 accepted⟩
    · split at h
      · next accepted => exact ⟨_, (recognise_iff sparql_grounded).1 accepted⟩
      · contradiction

/-- No two neighbours merge in a row that is a query or an update. -/
theorem mergeFree_of_formOfTokens? {ts : List Token} {form : Form}
    (h : formOfTokens? ts = some form) : MergeFree ts := by
  obtain ⟨n, derived⟩ := derives_of_formOfTokens? h
  exact mergeFree_closeEmptyBrackets.1 (mergeFree_of_derives derived)

end SparqlFormat.Grammar
