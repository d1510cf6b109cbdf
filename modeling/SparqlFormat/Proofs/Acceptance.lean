import SparqlFormat.Proofs.Cutting
import SparqlFormat.Reformat

/-!
# What acceptance depends on

Whether a row of tokens is a query or an update depends on the shapes of its tokens and on
whether one of them holds a code point escape (`formOfTokens?_of_shape`), and closing its empty
brackets beforehand makes no difference (`formOfTokens?_closeEmptyBrackets`).
-/

namespace SparqlFormat.Grammar

/-! ## Tokens covered alike -/

section Recogniser

variable {N T α : Type} {g : System N T α} {a b : α}

lemma advanceRule_congr (alike : ∀ t, g.covers t a = g.covers t b)
    (ofCall : N → Stack N T → List (Stack N T)) (r : Rule N T) (rest : Stack N T) :
    advanceRule g a ofCall r rest = advanceRule g b ofCall r rest := by
  induction r generalizing rest with
  | empty => rfl
  | terminal t => rw [advanceRule, advanceRule, alike]
  | call n => rfl
  | seq r s ihr ihs => rw [advanceRule, advanceRule, ihr, ihs]
  | alt r s ihr ihs => rw [advanceRule, advanceRule, ihr, ihs]
  | star r ih => rw [advanceRule, advanceRule, ih]
  | opt r ih => rw [advanceRule, advanceRule, ih]

lemma advanceCall_congr (alike : ∀ t, g.covers t a = g.covers t b) (depth : Nat) :
    advanceCall g a depth = advanceCall g b depth := by
  induction depth with
  | zero => rfl
  | succ depth ih =>
    funext n rest
    rw [advanceCall, advanceCall, ih, advanceRule_congr alike]

lemma advance_congr (alike : ∀ t, g.covers t a = g.covers t b) (s : Stack N T) :
    advance g a s = advance g b s := by
  induction s with
  | nil => rfl
  | cons r rest ih =>
    rw [advance, advance, ih, advanceCall_congr alike, advanceRule_congr alike]

lemma recogniseFrom_map {f : α → α} (alike : ∀ t a, g.covers t (f a) = g.covers t a)
    (row : List α) (candidates : List (Stack N T)) :
    recogniseFrom g candidates (row.map f) = recogniseFrom g candidates row := by
  induction row generalizing candidates with
  | nil => rfl
  | cons a row ih =>
    rw [List.map_cons, recogniseFrom, recogniseFrom, ih,
      funext (advance_congr fun t => alike t a)]

end Recogniser

lemma recognise_map_shape (n : Nonterminal) (row : List Token) :
    recognise sparql n (row.map Token.shape) = recognise sparql n row :=
  recogniseFrom_map (fun x t => covers_shape t x) row _

/-- Rows of one shape are of one form, if both or neither hold a code point escape. -/
theorem formOfTokens?_of_shape {ts us : List Token}
    (hshape : us.map Token.shape = ts.map Token.shape)
    (escaped : us.any isEscaped = ts.any isEscaped) : formOfTokens? us = formOfTokens? ts := by
  have same : ∀ n, recognise sparql n (closeEmptyBrackets us) =
      recognise sparql n (closeEmptyBrackets ts) := by
    intro n
    rw [← recognise_map_shape, closeEmptyBrackets_of_shape hshape, recognise_map_shape]
  rw [formOfTokens?, formOfTokens?, escaped, same, same]

/-! ## Closing empty brackets first -/

/-- Closing empty brackets makes no new ones, neither in the row nor with the token before it. -/
lemma hollowFree_closeEmptyBrackets (ts : List Token) :
    HollowFree (closeEmptyBrackets ts) ∧
      ∀ t, (∀ u ∈ ts.head?, hollow t u = false) →
        ∀ u ∈ (closeEmptyBrackets ts).head?, hollow t u = false := by
  have never : ∀ m : Mark, m = .emptyParens ∨ m = .emptyBrackets →
      ∀ t, hollow (.mark m) t = false ∧ hollow t (.mark m) = false := by
    rintro m (rfl | rfl) t <;> simp [hollow, Token.isMark]
  induction ts using hollowInduction with
  | nil => exact ⟨.nil, fun _ h => h⟩
  | singleton t =>
    rw [closeEmptyBrackets_singleton]
    exact ⟨.singleton t, fun _ h => h⟩
  | full left right ts full ih =>
    rw [closeEmptyBrackets_of_full full]
    exact ⟨List.isChain_cons.2 ⟨ih.2 left (by simpa using full), ih.1⟩, fun t h => by simpa using h⟩
  | parens ts ih =>
    rw [closeEmptyBrackets_parens]
    exact ⟨List.isChain_cons.2 ⟨fun u _ => (never _ (.inl rfl) u).1, ih.1⟩,
      fun t _ => by simpa using (never _ (.inl rfl) t).2⟩
  | brackets ts ih =>
    rw [closeEmptyBrackets_brackets]
    exact ⟨List.isChain_cons.2 ⟨fun u _ => (never _ (.inr rfl) u).1, ih.1⟩,
      fun t _ => by simpa using (never _ (.inr rfl) t).2⟩

@[simp] lemma closeEmptyBrackets_idem (ts : List Token) :
    closeEmptyBrackets (closeEmptyBrackets ts) = closeEmptyBrackets ts :=
  closeEmptyBrackets_of_hollowFree (hollowFree_closeEmptyBrackets ts).1

lemma any_closeEmptyBrackets {p : Token → Bool} (none : ∀ m : Mark, p (.mark m) = false)
    (ts : List Token) : (closeEmptyBrackets ts).any p = ts.any p := by
  induction ts using hollowInduction with
  | nil => rfl
  | singleton t => simp
  | full left right ts full ih =>
    rw [closeEmptyBrackets_of_full full, List.any_cons, ih, ← List.any_cons]
  | parens ts ih => simpa [closeEmptyBrackets_parens, none] using ih
  | brackets ts ih => simpa [closeEmptyBrackets_brackets, none] using ih

/-- The form of a row is that of the row with its empty brackets closed. -/
theorem formOfTokens?_closeEmptyBrackets (ts : List Token) :
    formOfTokens? (closeEmptyBrackets ts) = formOfTokens? ts := by
  rw [formOfTokens?, formOfTokens?, any_closeEmptyBrackets fun _ => rfl, closeEmptyBrackets_idem]

/-! ## Texts that are accepted -/

lemma not_isEscaped_of_mem {text : List Char} {row : List Stretch} (cuts : Cuts text row) :
    ∀ t ∈ row.map Stretch.token, isEscaped t = false := by
  induction cuts with
  | done => simp
  | blank _ _ ih => exact ih
  | comment _ _ _ ih => exact ih
  | terminal terminal _ ih =>
    exact List.forall_mem_cons.2 ⟨(mem_spellings_iff.1 terminal.spelled).2.2, ih⟩

/-- A text is what a checker finds it to be, and a query if it is found to be both. -/
lemma checkForm_eq_ok_iff {checker : Checker} {text : List Char} {form : Form} :
    checkForm checker text = .ok form ↔ checker.query text = .ok () ∧ form = .query ∨
      checker.query text ≠ .ok () ∧ checker.update text = .ok () ∧ form = .update := by
  unfold checkForm
  cases checker.query text with
  | ok => cases form <;> simp
  | error => cases checker.update text <;> cases form <;> simp

lemma formOfTokens?_eq_some_iff {ts : List Token} {form : Form} (plain : ts.any isEscaped = false) :
    formOfTokens? ts = some form ↔
      recognise sparql .query (closeEmptyBrackets ts) = true ∧ form = .query ∨
        ¬ recognise sparql .query (closeEmptyBrackets ts) = true ∧
          recognise sparql .update (closeEmptyBrackets ts) = true ∧ form = .update := by
  rw [formOfTokens?, plain, if_neg Bool.false_ne_true]
  split_ifs with isQuery isUpdate
  · cases form <;> simp [isQuery]
  · cases form <;> simp [isQuery, isUpdate]
  · simp [isQuery, isUpdate]

/-- A text is accepted as what its tokens are. -/
theorem checkForm_eq_ok {checker : Checker} (decides : checker.Decides) {text : List Char}
    {form : Form} :
    checkForm checker text = .ok form ↔
      ∃ row, CutsExpanded text row ∧ formOfTokens? (row.map Stretch.token) = some form := by
  have accepts : ∀ form, InLanguage form text ↔ ∃ row, CutsExpanded text row ∧
      recognise sparql form.start (closeEmptyBrackets (row.map Stretch.token)) = true := by
    simp only [InLanguage, recognise_iff sparql_grounded, implies_true]
  have isQuery := (decides.query_iff text).trans (accepts .query)
  have isUpdate := (decides.update_iff text).trans (accepts .update)
  rw [checkForm_eq_ok_iff, ne_eq, isQuery, isUpdate]
  by_cases cut : ∃ row, CutsExpanded text row
  · obtain ⟨row, cuts⟩ := cut
    have plain : (row.map Stretch.token).any isEscaped = false := by
      obtain ⟨_, -, cuts⟩ := cuts
      exact List.any_eq_false.2 fun t mem => by simp [not_isEscaped_of_mem cuts t mem]
    simp only [cuts.exists_iff, formOfTokens?_eq_some_iff plain]
    rfl
  · have none : ∀ {p : List Stretch → Prop}, ¬ ∃ row, CutsExpanded text row ∧ p row := by
      rintro p ⟨row, cuts, -⟩
      exact cut ⟨row, cuts⟩
    simp [none]

end SparqlFormat.Grammar
