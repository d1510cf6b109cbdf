import SparqlFormat.Proofs.Scanning

/-!
# A text is its lexemes and the blanks between them

Reading a text loses none of its characters and makes none up. `Tiles offset lexemes text` says
that the text that stands at an offset is a gap, the first lexeme, a gap, the second lexeme, and
so on to a last gap; that each lexeme stands where its offset says; and that its characters are not
none. A gap is a run of blanks, the comments of the text being lexemes.

`Token.IsNormalFormOf` says how much of a spelling its token keeps: all of it, but for the blanks
between brackets, the sigil of a variable, the case of a word and the white space around a comment.
It looks at characters alone and asks no reader.
-/

namespace SparqlFormat

open Lexeme

/-! ## Normal forms -/

/-- Whether the characters that a token is read from come to the token once the spelling that
carries no meaning is dropped. -/
def Token.IsNormalFormOf : Token → List Char → Prop
  | .mark .emptyParens, s =>
    ∃ blanks, (∀ c ∈ blanks, isBlank c = true) ∧ s = '(' :: (blanks ++ [')'])
  | .mark .emptyBrackets, s =>
    ∃ blanks, (∀ c ∈ blanks, isBlank c = true) ∧ s = '[' :: (blanks ++ [']'])
  | .mark m, s => s = m.text
  | .comment body, s =>
    ∃ line, (∀ c ∈ line, isLineBreak c = false) ∧ s = '#' :: line ∧ trim line = body
  | .number _ digits, s => s = digits
  | .language tag, s => s = '@' :: tag
  | .var name, s => s = '?' :: name ∨ s = '$' :: name
  | .string source, s => s = source
  | .blankNode label, s => s = '_' :: ':' :: label
  | .prefixed name, s => s = name
  | .boolean word, s => s.map lower = word
  | .keyword word, s => s.map upper = word
  | .iri body, s => s = '<' :: (body ++ ['>'])

lemma isNormalFormOf_text (m : Mark) : (Token.mark m).IsNormalFormOf m.text := by
  cases m with
  | emptyParens => exact ⟨[], by simp, rfl⟩
  | emptyBrackets => exact ⟨[], by simp, rfl⟩
  | _ => rfl

lemma Spells.isNormalFormOf {pointFirst : Bool} {t : Token} {s : List Char}
    (h : Spells pointFirst t s) : t.IsNormalFormOf s := by
  cases h with
  | mark m => exact isNormalFormOf_text m
  | emptyParens blank => exact ⟨_, blank, rfl⟩
  | emptyBrackets blank => exact ⟨_, blank, rfl⟩
  | comment noBreak => exact ⟨_, noBreak, rfl, rfl⟩
  | number => exact rfl
  | language => exact rfl
  | var isSigil =>
    rcases isSigil with rfl | rfl
    · exact .inl rfl
    · exact .inr rfl
  | string => exact rfl
  | blankNode => exact rfl
  | prefixed => exact rfl
  | word hw ht =>
    rcases ofWord_eq_ok ht with ⟨rfl, -⟩ | ⟨rfl, rfl⟩ | ⟨rfl, -⟩
    · exact rfl
    · exact (by decide : ['a'].map upper = typeWord)
    · exact rfl
  | iri => exact rfl

/-! ## Tilings -/

/-- The text that stands at an offset is made of the lexemes, in order and each where its offset
says, with blanks before, between and after them. -/
inductive Tiles : Nat → List Lexeme → List Char → Prop
  | last {offset : Nat} {gap : List Char} : (∀ c ∈ gap, isBlank c = true) → Tiles offset [] gap
  | cons {offset : Nat} {gap rest : List Char} {l : Lexeme} {ls : List Lexeme} :
      (∀ c ∈ gap, isBlank c = true) → l.offset = offset + gap.length → l.source ≠ [] →
      Tiles (l.offset + l.source.length) ls rest →
      Tiles offset (l :: ls) (gap ++ (l.source ++ rest))

namespace Tiles

variable {offset : Nat} {l : Lexeme} {ls : List Lexeme} {text : List Char}

lemma blank {c : Char} (isBlank : isBlank c = true) (h : Tiles (offset + 1) ls text) :
    Tiles offset ls (c :: text) := by
  cases h with
  | last blank => exact .last (List.forall_mem_cons.2 ⟨isBlank, blank⟩)
  | @cons _ gap rest l ls blank stands nonempty h =>
    have stands : l.offset = offset + (c :: gap).length := by
      rw [stands, List.length_cons]
      omega
    exact .cons (List.forall_mem_cons.2 ⟨isBlank, blank⟩) stands nonempty h

lemma lexeme {t : Token} {s : List Char} (nonempty : s ≠ [])
    (h : Tiles (offset + s.length) ls text) : Tiles offset (⟨t, s, offset⟩ :: ls) (s ++ text) := by
  have gapless := List.forall_mem_nil fun c => isBlank c = true
  exact .cons gapless rfl nonempty h

lemma offset_le (h : Tiles offset ls text) : ∀ l ∈ ls, offset ≤ l.offset := by
  induction h with
  | last => simp
  | cons _ stands _ _ ih =>
    refine List.forall_mem_cons.2 ⟨by omega, fun l mem => ?_⟩
    have := ih l mem
    omega

/-- Lexemes do not overlap. -/
lemma pairwise (h : Tiles offset ls text) :
    ls.Pairwise fun l l' => l.offset + l.source.length ≤ l'.offset := by
  induction h with
  | last => exact .nil
  | cons _ _ _ h ih => exact .cons h.offset_le ih

lemma source_ne_nil (h : Tiles offset ls text) : ∀ l ∈ ls, l.source ≠ [] := by
  induction h with
  | last => simp
  | cons _ _ nonempty _ ih => exact List.forall_mem_cons.2 ⟨nonempty, ih⟩

/-- Each lexeme starts after the one before it. -/
lemma pairwise_offset (h : Tiles offset ls text) : (ls.map Lexeme.offset).Pairwise (· < ·) := by
  rw [List.pairwise_map]
  refine h.pairwise.imp_of_mem fun {l l'} mem _ apart => ?_
  have := List.length_pos_iff.2 (h.source_ne_nil l mem)
  omega

/-- The characters of a lexeme are found in the text at its offset. -/
lemma source_eq (h : Tiles offset ls text) :
    ∀ l ∈ ls, (text.drop (l.offset - offset)).take l.source.length = l.source := by
  induction h with
  | last => simp
  | @cons offset gap rest l ls _ stands _ h ih =>
    refine List.forall_mem_cons.2 ⟨by simp [stands], fun l' mem => ?_⟩
    have behind := h.offset_le l' mem
    have split : l'.offset - offset =
        (gap ++ l.source).length + (l'.offset - (l.offset + l.source.length)) := by
      rw [List.length_append]
      omega
    rw [← List.append_assoc, split, List.drop_length_add_append, ih l' mem]

end Tiles

/-! ## A scan tiles its text -/

section Scan

variable {pointFirst : Bool} {offset : Nat} {text : List Char} {lexemes : List Lexeme}

/-- The lexemes that a scan finds, comments kept, tile the text. -/
lemma Scan.tiles (h : Scan ⟨true, pointFirst⟩ offset text (.ok lexemes)) :
    Tiles offset lexemes text := by
  generalize houtcome : Except.ok lexemes = outcome at h
  induction h generalizing lexemes with
  | done =>
    obtain rfl := Except.ok.inj houtcome
    exact .last (List.forall_mem_nil _)
  | blank isBlank _ ih => exact (ih houtcome).blank isBlank
  | @comment offset body rest outcome _ _ _ ih =>
    obtain ⟨others, rfl, rfl⟩ := Outcome.after_eq_ok.1 houtcome.symm
    exact Tiles.lexeme (s := '#' :: body) (List.cons_ne_nil _ _) (ih rfl)
  | token read _ ih =>
    obtain ⟨others, rfl, rfl⟩ := Outcome.after_eq_ok.1 houtcome.symm
    obtain ⟨c, cs, rfl, -⟩ := first_source read
    exact Tiles.lexeme (List.cons_ne_nil c cs) (ih rfl)
  | fault => contradiction

lemma Scan.spelled {manner : Manner} (h : Scan manner offset text (.ok lexemes)) :
    ∀ l ∈ lexemes, Spells manner.pointFirst l.token l.source := by
  generalize houtcome : Except.ok lexemes = outcome at h
  induction h generalizing lexemes with
  | done =>
    obtain rfl := Except.ok.inj houtcome
    simp
  | blank _ _ ih => exact ih houtcome
  | comment noBreak _ _ ih =>
    split at houtcome
    · obtain ⟨others, rfl, rfl⟩ := Outcome.after_eq_ok.1 houtcome.symm
      exact List.forall_mem_cons.2 ⟨.comment noBreak, ih rfl⟩
    · exact ih houtcome
  | token read _ ih =>
    obtain ⟨others, rfl, rfl⟩ := Outcome.after_eq_ok.1 houtcome.symm
    exact List.forall_mem_cons.2 ⟨(spells_of_first read).1, ih rfl⟩
  | fault => contradiction

end Scan

/-- A text that is tokenized with its comments is its lexemes with blanks before, between and after
them. The lexemes start further and further on in the text and never overlap, each has a character
and stands at its offset, and its token is the normal form of its characters. -/
theorem tokenize_tiles {text : List Char} {lexemes : List Lexeme}
    (cut : tokenize true text = .ok lexemes) :
    Tiles 0 lexemes text ∧ (lexemes.map Lexeme.offset).Pairwise (· < ·) ∧
      (lexemes.Pairwise fun l l' => l.offset + l.source.length ≤ l'.offset) ∧
      ∀ l ∈ lexemes, l.source ≠ [] ∧ (text.drop l.offset).take l.source.length = l.source ∧
        l.token.IsNormalFormOf l.source := by
  have scan := tokenize_eq_ok.1 cut
  have tiles := scan.tiles
  refine ⟨tiles, tiles.pairwise_offset, tiles.pairwise, fun l mem => ?_⟩
  exact ⟨tiles.source_ne_nil l mem, tiles.source_eq l mem, (scan.spelled l mem).isNormalFormOf⟩

/-- A text that shows what tokens drop: words in mixed case, a dollar sign, blanks between brackets
and white space around a comment. -/
def loosely : List Char :=
  ("\tsElEcT$x # two  \r\nwhere\x7b?x a[\n ],_:b;p:q\\-r '''a\n'b'''@en,5e1,TrUe ." ++
    "FILTER(?x<-.5||<a>!=p:f( \t))\x7d#").toList

/-- Such a text is tiled by its lexemes. -/
theorem tokenize_tiles_loosely :
    ∃ lexemes, tokenize true loosely = .ok lexemes ∧ lexemes.length = 32 ∧
      Tiles 0 lexemes loosely ∧ (lexemes.map Lexeme.offset).Pairwise (· < ·) ∧
      (lexemes.Pairwise fun l l' => l.offset + l.source.length ≤ l'.offset) ∧
      ∀ l ∈ lexemes, l.source ≠ [] ∧ (loosely.drop l.offset).take l.source.length = l.source ∧
        l.token.IsNormalFormOf l.source := by
  have checked : ((tokenize true loosely).toOption.any fun lexemes => lexemes.length == 32) =
      true := by
    decide +kernel
  cases cut : tokenize true loosely with
  | error e =>
    rw [cut] at checked
    contradiction
  | ok lexemes =>
    rw [cut] at checked
    exact ⟨lexemes, rfl, by simpa [Except.toOption] using checked, tokenize_tiles cut⟩

end SparqlFormat
