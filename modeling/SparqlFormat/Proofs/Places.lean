import SparqlFormat.Proofs.Comparison
import SparqlFormat.Proofs.Nested

/-!
# Places in the many-line layout

What the many-line layout does at one place of a row: how the token there is set
(`getElem?_place`), which gap stands behind it (`exists_wideGap`), and what is written in front of
its text and behind it (`textAhead`, `textBehind`). A place is given by the tokens before it, and
the level it is set at is read off their brackets.

Whether a text is the first or the last of its line is then a matter of one gap: a gap that is a
line break ends the line of the token before it and starts one, indented by so many levels, for
the token behind it.
-/

namespace SparqlFormat.Layout

/-! ## How a token is set -/

section Set

/-- The nesting that a row of tokens leaves. -/
def nestingAfter (ts : List Token) : Nesting :=
  ⟨openBraces ts, openParens ts⟩

@[simp] lemma level_nestingAfter (ts : List Token) : (nestingAfter ts).level = openCount ts := rfl

lemma leave_enter (n : Nesting) (t : Token) :
    (n.enter t).leave t = ⟨n.braces + openBraces [t], n.parens + openParens [t]⟩ := by
  cases t with
  | mark m =>
    cases m <;> simp [Nesting.enter, Nesting.leave, openBraces, openParens, Int.sub_eq_add_neg]
  | _ => simp [Nesting.enter, Nesting.leave, openBraces, openParens]

lemma leave_enter_nestingAfter (ts : List Token) (t : Token) :
    ((nestingAfter ts).enter t).leave t = nestingAfter (ts ++ [t]) := by
  rw [leave_enter, nestingAfter, nestingAfter, openBraces_append, openParens_append]

lemma getElem?_placeFrom (seen before : List Token) (t : Token) (after : List Token) :
    (placeFrom (nestingAfter seen) (before ++ t :: after))[before.length]? =
      some ⟨t, spacing ((nestingAfter (seen ++ before)).enter t) t after.head?⟩ := by
  induction before generalizing seen with
  | nil => simp [placeFrom]
  | cons b before ih =>
    rw [List.cons_append, placeFrom, leave_enter_nestingAfter, List.length_cons,
      List.getElem?_cons_succ, ih, List.append_assoc, List.singleton_append]

/-- A token is set by the rules, at the nesting that the tokens before it leave. -/
theorem getElem?_place (before : List Token) (t : Token) (after : List Token) :
    (place (before ++ t :: after))[before.length]? =
      some ⟨t, spacing ((nestingAfter before).enter t) t after.head?⟩ :=
  getElem?_placeFrom [] before t after

lemma length_place (ts : List Token) : (place ts).length = ts.length := by
  rw [← congrArg List.length (place_map_token ts), List.length_map]

end Set

/-! ## The gap behind a token -/

section Gaps

lemma length_callBreaksFrom (c : Calls) (ps : List Placed) :
    (callBreaksFrom c ps).length = ps.length := by
  induction ps generalizing c with
  | nil => rfl
  | cons p ps ih => rw [callBreaksFrom_cons, List.length_cons, ih, List.length_cons]

/-- A line is broken after a call only at a bracket that closes. -/
lemma closing_of_callBreaksFrom {c : Calls} {ps : List Placed} {i : Nat} {p : Placed}
    (here : ps[i]? = some p) {level : Int} (found : (callBreaksFrom c ps)[i]? = some (some level)) :
    p.token = .mark .closeParen ∨ p.token = .mark .emptyParens := by
  induction ps generalizing c i with
  | nil => simp at here
  | cons q ps ih =>
    rw [callBreaksFrom_cons] at found
    cases i with
    | zero =>
      obtain rfl : q = p := by simpa using here
      have isSome : (tokenBreak c q ps).1.isSome = true := by
        simp only [List.getElem?_cons_zero, Option.some.injEq] at found
        rw [found, Option.isSome_some]
      exact ((tokenBreak_spec c q ps).1 isSome).1
    | succ i => exact ih here found

lemma getElem?_prettyGaps {ps : List Placed} {fs : List (Option Int)} {i : Nat}
    {left right : Placed} {found : Option Int} (hleft : ps[i]? = some left)
    (hright : ps[i + 1]? = some right) (hfound : fs[i]? = some found) :
    (prettyGaps ps fs)[i]? = some (prettyGap left found right) := by
  induction ps generalizing fs i with
  | nil => simp at hleft
  | cons p ps ih =>
    cases fs with
    | nil => simp at hfound
    | cons f fs =>
      have more : ps ≠ [] := by
        rintro rfl
        simp at hright
      cases i with
      | zero =>
        obtain ⟨q, ps, rfl⟩ := List.exists_cons_of_ne_nil more
        simp_all [prettyGaps]
      | succ i =>
        rw [getElem?_prettyGaps_succ more]
        exact ih hleft hright hfound

/-- Each gap is settled by the rules of its two neighbours, and by a break that only a closing
bracket can bring about. -/
theorem exists_wideGap (before : List Token) (t u : Token) (after : List Token) :
    ∃ found : Option Int,
      (wideGaps (before ++ t :: u :: after))[before.length]? = some (prettyGap
        ⟨t, spacing ((nestingAfter before).enter t) t (some u)⟩ found
        ⟨u, spacing ((nestingAfter (before ++ [t])).enter u) u after.head?⟩) ∧
      (found.isSome = true → t = .mark .closeParen ∨ t = .mark .emptyParens) := by
  set ts := before ++ t :: u :: after with hts
  have left := getElem?_place before t (u :: after)
  have right := getElem?_place (before ++ [t]) u after
  rw [List.append_assoc, List.singleton_append, List.length_append, List.length_singleton,
    ← hts] at right
  rw [← hts] at left
  have inside : before.length < (callBreaks (place ts)).length := by
    rw [callBreaks, length_callBreaksFrom, length_place, hts, List.length_append, List.length_cons]
    omega
  obtain ⟨found, hfound⟩ : ∃ found, (callBreaks (place ts))[before.length]? = some found :=
    ⟨_, List.getElem?_eq_getElem inside⟩
  refine ⟨found, getElem?_prettyGaps left right hfound, fun isSome => ?_⟩
  obtain ⟨level, rfl⟩ := Option.isSome_iff_exists.1 isSome
  exact closing_of_callBreaksFrom left hfound

section Parted

variable {left right : Placed} {level : Int} (found : Option Int)
  (parted : staysJoined left.token.text right.token.text = false)

include parted

/-- The line that a token starts wins over everything in front of it. -/
lemma prettyGap_of_leading (leading : right.spacing.leading = some level) :
    prettyGap left found right = .line level := by
  simp [prettyGap, settle, leading, rejoin, parted]

/-- The line break that a token leaves wins where the next one starts no line of its own. -/
lemma prettyGap_of_after (after : left.spacing.after = .line level)
    (leading : right.spacing.leading = none) : prettyGap left found right = .line level := by
  simp [prettyGap, settle, after, leading, rejoin, parted]

end Parted

lemma length_prettyGaps {ps : List Placed} {fs : List (Option Int)}
    (alike : fs.length = ps.length) : (prettyGaps ps fs).length = ps.length - 1 := by
  induction ps generalizing fs with
  | nil => rfl
  | cons p ps ih =>
    cases fs with
    | nil => simp at alike
    | cons f fs =>
      cases ps with
      | nil => rfl
      | cons q ps =>
        rw [prettyGaps, List.length_cons, ih (by simpa using alike)]
        simp

lemma length_wideGaps (ts : List Token) : (wideGaps ts).length = ts.length - 1 := by
  rw [wideGaps, callBreaks, length_prettyGaps (length_callBreaksFrom _ _), length_place]

end Gaps

/-! ## What is written around a token -/

section Around

variable (indent : List Char)

/-- What the many-line layout writes in front of the token at a place: the texts of the tokens
before it, each with the gap behind it. -/
def textAhead (ts : List Token) (place : Nat) : List Char :=
  ((ts.take place).zip ((wideGaps ts).take place)).flatMap fun entry =>
    entry.1.text ++ entry.2.render indent

/-- What the many-line layout writes behind the token at a place: the texts of the tokens after
it, each with the gap in front of it. -/
def textBehind (ts : List Token) (place : Nat) : List Char :=
  (((wideGaps ts).drop place).zip (ts.drop (place + 1))).flatMap fun entry =>
    entry.1.render indent ++ entry.2.text

lemma weave_cons {α : Type} (f : α → List Char) (a : α) {as : List α} {gs : List Gap}
    (alike : gs.length = as.length) :
    weave indent ((a :: as).map f) gs =
      f a ++ (gs.zip as).flatMap fun entry => entry.1.render indent ++ f entry.2 := by
  induction as generalizing a gs with
  | nil =>
    obtain rfl := List.eq_nil_of_length_eq_zero alike
    simp
  | cons b as ih =>
    cases gs with
    | nil => simp at alike
    | cons g gs =>
      have rest := ih b (by simpa using alike)
      rw [List.map_cons] at rest
      simp [weave, rest]

/-- Texts with a gap between every two, around one of them. -/
lemma weave_append {α : Type} (f : α → List Char) (as : List α) (a : α) (bs : List α)
    {gs : List Gap} (hs : List Gap) (alike : gs.length = as.length) :
    weave indent ((as ++ a :: bs).map f) (gs ++ hs) =
      (as.zip gs).flatMap (fun entry => f entry.1 ++ entry.2.render indent) ++
        weave indent ((a :: bs).map f) hs := by
  induction as generalizing gs with
  | nil =>
    obtain rfl := List.eq_nil_of_length_eq_zero alike
    rfl
  | cons b as ih =>
    cases gs with
    | nil => simp at alike
    | cons g gs =>
      have rest := @ih gs (by simpa using alike)
      rw [List.cons_append, List.map_cons, List.cons_append, weave, rest]
      simp

/-- The layout of a row around one of its tokens. -/
theorem pretty_eq_around (before : List Token) (t : Token) (after : List Token) :
    let ts := before ++ t :: after
    pretty indent ts =
      textAhead indent ts before.length ++ (t.text ++ textBehind indent ts before.length) := by
  intro ts
  have long : (wideGaps ts).length = before.length + after.length := by
    rw [length_wideGaps, List.length_append, List.length_cons]
    omega
  have front : ((wideGaps ts).take before.length).length = before.length := by
    rw [List.length_take, long]
    omega
  have back : ((wideGaps ts).drop before.length).length = after.length := by
    rw [List.length_drop, long]
    omega
  have ahead : ts.take before.length = before := List.take_left
  have behind : ts.drop (before.length + 1) = after := by simp [ts]
  have whole := weave_append indent Token.text before t after ((wideGaps ts).drop before.length)
    front
  rw [List.take_append_drop, weave_cons indent Token.text t back] at whole
  rw [textAhead, textBehind, ahead, behind]
  exact whole

end Around

/-! ## Lines -/

/-- What is written behind a text ends the line of the text. -/
def EndsLine (behind : List Char) : Prop :=
  behind = [] ∨ behind.head? = some '\n'

/-- What is written in front of a text are whole lines and the indentation of the line that the
text starts; a negative number of levels indents as zero does. -/
def StartsLine (indent : List Char) (level : Int) (ahead : List Char) : Prop :=
  ∃ lines, (lines = [] ∨ lines.getLast? = some '\n') ∧
    ahead = lines ++ (List.replicate level.toNat indent).flatten

section Lines

variable (indent : List Char) {before after : List Token} {t u : Token} {level : Int}

lemma startsLine_first (ts : List Token) (outermost : level.toNat = 0) :
    StartsLine indent level (textAhead indent ts 0) :=
  ⟨[], .inl rfl, by simp [textAhead, outermost]⟩

lemma startsLine_of_gap
    (gap : (wideGaps (before ++ t :: u :: after))[before.length]? = some (.line level)) :
    StartsLine indent level
      (textAhead indent (before ++ [t] ++ u :: after) (before ++ [t]).length) := by
  rw [List.append_assoc, List.singleton_append, List.length_append, List.length_singleton]
  set ts := before ++ t :: u :: after with hts
  have token : ts[before.length]? = some t := by simp [hts]
  have front : ((wideGaps ts).take before.length).length = (ts.take before.length).length := by
    rw [List.length_take, List.length_take, length_wideGaps, hts, List.length_append,
      List.length_cons, List.length_cons]
    omega
  refine ⟨textAhead indent ts before.length ++ (t.text ++ ['\n']), .inr (by simp), ?_⟩
  rw [textAhead, List.take_add_one, List.take_add_one, token, gap, List.zip_append front.symm,
    List.flatMap_append, ← textAhead]
  simp [Gap.render]

lemma endsLine_last :
    EndsLine (textBehind indent (before ++ [t]) before.length) :=
  .inl (by simp [textBehind])

/-- Behind a text stand the gap, the next text and what is behind that. -/
lemma textBehind_of_gap {g : Gap}
    (gap : (wideGaps (before ++ t :: u :: after))[before.length]? = some g) :
    textBehind indent (before ++ t :: u :: after) before.length =
      g.render indent ++
        (u.text ++ textBehind indent (before ++ t :: u :: after) (before.length + 1)) := by
  obtain ⟨inside, gap⟩ := List.getElem?_eq_some_iff.1 gap
  have next : (before ++ t :: u :: after).drop (before.length + 1) = u :: after := by simp
  have rest : (before ++ t :: u :: after).drop (before.length + 1 + 1) = after := by
    rw [← List.drop_drop, next]
    rfl
  rw [textBehind, textBehind, List.drop_eq_getElem_cons inside, gap, next, rest]
  simp

lemma endsLine_of_gap
    (gap : (wideGaps (before ++ t :: u :: after))[before.length]? = some (.line level)) :
    EndsLine (textBehind indent (before ++ t :: u :: after) before.length) :=
  .inr (by simp [textBehind_of_gap indent gap, Gap.render])

end Lines

end SparqlFormat.Layout

namespace SparqlFormat

open Lexeme Layout

/-! ## The layout of a text -/

lemma pretty_of_reformat {checker? : Option Checker} {text out : List Char}
    (laidOut : reformat checker? .pretty text = .ok out) :
    ∃ ts, Reads ⟨true, false⟩ text ts ∧ out = pretty defaultIndent ts := by
  obtain ⟨ts, read, -, rfl⟩ := reads_of_relayout (relayout_of_reformat laidOut)
  exact ⟨ts, read, rfl⟩

lemma reads_of_tokens {text : List Char} {ts : List Token}
    (cut : (tokenize true text).toOption.map (fun lexemes => lexemes.map Lexeme.token) = some ts) :
    Reads ⟨true, false⟩ text ts := by
  cases found : tokenize true text with
  | error => simp [found, Except.toOption] at cut
  | ok lexemes =>
    refine reads_iff_tokenize.2 ⟨lexemes, found, ?_⟩
    simpa [found, Except.toOption] using cut

end SparqlFormat
