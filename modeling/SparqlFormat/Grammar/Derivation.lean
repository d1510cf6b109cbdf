import Mathlib.Tactic.Common
import Mathlib.Tactic.Lemma
import SparqlFormat.Grammar.Rule

/-!
# Recognised rows are the derived ones

`DerivesAll` extends derivations from one rule to a stack of rules. A stack derives the empty row
if all its rules vanish (`derivesAll_nil_iff`), and a row that starts with a token if a stack that
is left after the token derives the rest (`derivesAll_cons_iff`). The recogniser of a grounded
grammar therefore accepts what the grammar derives and nothing else (`recognise_iff`).
-/

namespace SparqlFormat.Grammar

variable {N T α : Type}

/-- The token rows that a stack of rules covers, each rule a piece of the row. -/
inductive DerivesAll (g : System N T α) : Stack N T → List α → Prop
  | nil : DerivesAll g [] []
  | cons {r : Rule N T} {rest : Stack N T} {v w : List α} : Derives g r v →
      DerivesAll g rest w → DerivesAll g (r :: rest) (v ++ w)

namespace DerivesAll

variable {g : System N T α} {r s : Rule N T} {rest : Stack N T} {w : List α}

/-- A stack is derived once its first rule is, in front of a derivation of the others. -/
theorem cons_iff :
    DerivesAll g (r :: rest) w ↔
      ∃ u v, w = u ++ v ∧ Derives g r u ∧ DerivesAll g rest v := by
  constructor
  · intro h
    cases h with
    | cons hr hrest => exact ⟨_, _, rfl, hr, hrest⟩
  · rintro ⟨u, v, rfl, hr, hrest⟩
    exact .cons hr hrest

theorem seq (h : DerivesAll g (r :: s :: rest) w) : DerivesAll g (.seq r s :: rest) w := by
  obtain ⟨u, v, rfl, hr, hv⟩ := cons_iff.1 h
  obtain ⟨x, y, rfl, hs, hrest⟩ := cons_iff.1 hv
  rw [← List.append_assoc]
  exact .cons (.seq hr hs) hrest

/-- Any rule whose derivations include those of another may stand in its place. -/
theorem mono_head (imp : ∀ v, Derives g r v → Derives g s v) (h : DerivesAll g (r :: rest) w) :
    DerivesAll g (s :: rest) w := by
  obtain ⟨u, v, rfl, hr, hrest⟩ := cons_iff.1 h
  exact .cons (imp u hr) hrest

/-- A rule that covers nothing may be put in front. -/
theorem skip (nothing : Derives g r []) (h : DerivesAll g rest w) : DerivesAll g (r :: rest) w :=
  DerivesAll.cons nothing h

theorem star (h : DerivesAll g (r :: .star r :: rest) w) : DerivesAll g (.star r :: rest) w := by
  obtain ⟨u, v, rfl, hr, hv⟩ := cons_iff.1 h
  obtain ⟨x, y, rfl, hstar, hrest⟩ := cons_iff.1 hv
  rw [← List.append_assoc]
  exact .cons (.starCons hr hstar) hrest

end DerivesAll

section Grounded

variable {g : System N T α}

/-! ## The empty row -/

/-- A rule vanishes that derives the empty row. -/
theorem vanishes_of_derives (grounded : Grounded g) {r : Rule N T} {w : List α}
    (h : Derives g r w) (empty : w = []) : r.vanishes g.vanishes = true := by
  induction h with
  | empty => rfl
  | terminal => cases empty
  | call _ ih => exact (grounded.vanishes _).symm.trans (ih empty)
  | seq _ _ ihr ihs =>
    obtain ⟨hv, hw⟩ := List.append_eq_nil_iff.1 empty
    simp [Rule.vanishes, ihr hv, ihs hw]
  | altLeft _ ih => simp [Rule.vanishes, ih empty]
  | altRight _ ih => simp [Rule.vanishes, ih empty]
  | starNil => rfl
  | starCons => rfl
  | optNone => rfl
  | optSome => rfl

/-- A rule that vanishes derives the empty row, if the nonterminals at its front do so. -/
theorem derives_nil_of_leftmost {p : N → Bool}
    (calls : ∀ n, p n = true → g.vanishes n = true → Derives g (.call n) []) {r : Rule N T}
    (front : r.leftmost g p = true) (h : r.vanishes g.vanishes = true) : Derives g r [] := by
  induction r with
  | empty => exact .empty
  | terminal => contradiction
  | call n => exact calls n front h
  | seq r s ihr ihs =>
    simp only [Rule.vanishes, Bool.and_eq_true] at h
    simp only [Rule.leftmost, h.1, Bool.not_true, Bool.false_or, Bool.and_eq_true] at front
    exact .seq (ihr front.1 h.1) (ihs front.2 h.2)
  | alt r s ihr ihs =>
    simp only [Rule.leftmost, Bool.and_eq_true] at front
    simp only [Rule.vanishes, Bool.or_eq_true] at h
    rcases h with hr | hs
    · exact .altLeft (ihr front.1 hr)
    · exact .altRight (ihs front.2 hs)
  | star => exact .starNil
  | opt => exact .optNone

lemma derives_nil_of_reaches (grounded : Grounded g) {depth : Nat} {n : N}
    (bounded : reaches g depth n = true) (h : g.vanishes n = true) :
    Derives g (.call n) [] := by
  induction depth generalizing n with
  | zero => contradiction
  | succ depth ih =>
    exact .call (derives_nil_of_leftmost (fun m => ih) bounded ((grounded.vanishes n).trans h))

lemma leftmost_of_forall {p : N → Bool} (all : ∀ n, p n = true) (r : Rule N T) :
    r.leftmost g p = true := by
  induction r with
  | call n => exact all n
  | _ => simp_all [Rule.leftmost]

/-- The rules that derive the empty row are those that vanish. -/
theorem derives_nil_iff (grounded : Grounded g) {r : Rule N T} :
    Derives g r [] ↔ r.vanishes g.vanishes = true :=
  ⟨fun h => vanishes_of_derives grounded h rfl,
    derives_nil_of_leftmost (fun n _ => derives_nil_of_reaches grounded (grounded.reaches n))
      (leftmost_of_forall grounded.reaches r)⟩

theorem derivesAll_nil_iff (grounded : Grounded g) {s : Stack N T} :
    DerivesAll g s [] ↔ (s.all fun r => r.vanishes g.vanishes) = true := by
  induction s with
  | nil => exact ⟨fun _ => rfl, fun _ => .nil⟩
  | cons r rest ih =>
    rw [List.all_cons, Bool.and_eq_true, ← ih, ← derives_nil_iff grounded,
      DerivesAll.cons_iff]
    constructor
    · rintro ⟨u, v, empty, hr, hrest⟩
      obtain ⟨rfl, rfl⟩ := List.append_eq_nil_iff.1 empty.symm
      exact ⟨hr, hrest⟩
    · exact fun h => ⟨[], [], rfl, h⟩

/-! ## Rows that start with a token -/

variable {a : α} {ofCall : N → Stack N T → List (Stack N T)} {left rest : Stack N T} {w : List α}

/-- What is left after a token, with the token in front, is derived from the rule and the stack
before it, if that holds of nonterminals. -/
lemma derivesAll_of_mem_advanceRule (grounded : Grounded g)
    (calls : ∀ n rest, left ∈ ofCall n rest → DerivesAll g (.call n :: rest) (a :: w))
    {r : Rule N T} (mem : left ∈ advanceRule g a ofCall r rest) (h : DerivesAll g left w) :
    DerivesAll g (r :: rest) (a :: w) := by
  induction r generalizing rest with
  | empty => contradiction
  | terminal t =>
    simp only [advanceRule] at mem
    split at mem
    · next covered =>
      obtain rfl := List.mem_singleton.1 mem
      exact DerivesAll.cons (.terminal covered) h
    · contradiction
  | call n => exact calls n rest mem
  | seq r s ihr ihs =>
    rcases List.mem_append.1 mem with hr | hs
    · exact (ihr hr).seq
    · split at hs
      · next vanishes =>
        exact ((ihs hs).skip ((derives_nil_iff grounded).2 vanishes)).seq
      · contradiction
  | alt r s ihr ihs =>
    rcases List.mem_append.1 mem with hr | hs
    · exact (ihr hr).mono_head fun _ => .altLeft
    · exact (ihs hs).mono_head fun _ => .altRight
  | star r ih => exact (ih mem).star
  | opt r ih => exact (ih mem).mono_head fun _ => .optSome

lemma derivesAll_of_mem_advanceCall (grounded : Grounded g) {depth : Nat} {n : N}
    (mem : left ∈ advanceCall g a depth n rest) (h : DerivesAll g left w) :
    DerivesAll g (.call n :: rest) (a :: w) := by
  induction depth generalizing n rest with
  | zero => contradiction
  | succ depth ih =>
    exact (derivesAll_of_mem_advanceRule grounded (fun _ _ => ih) mem h).mono_head
      fun _ => .call

/-- The rest of a row that starts with a token is derived from a stack left after the token. The
induction is on the derivation, so a production is entered only where the derivation does. -/
lemma exists_mem_advanceRule (grounded : Grounded g) {r : Rule N T} {row u v : List α}
    {depth : Nat} (h : Derives g r row) (split : row = a :: u) (hrest : DerivesAll g rest v)
    (front : r.leftmost g (reaches g depth) = true) :
    ∃ left ∈ advanceRule g a (advanceCall g a depth) r rest, DerivesAll g left (u ++ v) := by
  induction h generalizing u v rest depth with
  | empty => contradiction
  | @terminal t b covered =>
    obtain ⟨rfl, rfl⟩ := List.cons.inj split
    exact ⟨rest, by simp [advanceRule, covered], hrest⟩
  | @call n w _ ih =>
    cases depth with
    | zero => contradiction
    | succ depth => exact ih split hrest front
  | @seq r s x y hr hs ihr ihs =>
    simp only [Rule.leftmost, Bool.and_eq_true] at front
    cases x with
    | nil =>
      have vanishes := (derives_nil_iff grounded).1 hr
      obtain ⟨left, mem, hleft⟩ := ihs split hrest (by simpa [vanishes] using front.2)
      exact ⟨left, List.mem_append_right _ (by simpa [vanishes] using mem), hleft⟩
    | cons b x =>
      rw [List.cons_append] at split
      obtain ⟨rfl, rfl⟩ := List.cons.inj split
      obtain ⟨left, mem, hleft⟩ := ihr rfl (DerivesAll.cons hs hrest) front.1
      exact ⟨left, List.mem_append_left _ mem, by rwa [List.append_assoc]⟩
  | altLeft _ ih =>
    simp only [Rule.leftmost, Bool.and_eq_true] at front
    obtain ⟨left, mem, hleft⟩ := ih split hrest front.1
    exact ⟨left, List.mem_append_left _ mem, hleft⟩
  | altRight _ ih =>
    simp only [Rule.leftmost, Bool.and_eq_true] at front
    obtain ⟨left, mem, hleft⟩ := ih split hrest front.2
    exact ⟨left, List.mem_append_right _ mem, hleft⟩
  | starNil => contradiction
  | @starCons r x y hr hs ihr ihs =>
    cases x with
    | nil => exact ihs split hrest front
    | cons b x =>
      rw [List.cons_append] at split
      obtain ⟨rfl, rfl⟩ := List.cons.inj split
      obtain ⟨left, mem, hleft⟩ := ihr rfl (DerivesAll.cons hs hrest) front
      exact ⟨left, mem, by rwa [List.append_assoc]⟩
  | optNone => contradiction
  | optSome _ ih => exact ih split hrest front

/-- A stack derives a row that starts with a token exactly if one left after the token derives the
rest of the row. -/
theorem derivesAll_cons_iff (grounded : Grounded g) {s : Stack N T} :
    DerivesAll g s (a :: w) ↔ ∃ left ∈ advance g a s, DerivesAll g left w := by
  constructor
  · intro h
    generalize split : a :: w = row at h
    induction h with
    | nil => contradiction
    | @cons r rest u v hr hrest ih =>
      cases u with
      | nil =>
        obtain ⟨left, mem, hleft⟩ := ih split
        have vanishes := (derives_nil_iff grounded).1 hr
        exact ⟨left, List.mem_append_right _ (by simpa [vanishes] using mem), hleft⟩
      | cons b u =>
        obtain ⟨rfl, rfl⟩ := List.cons.inj split
        obtain ⟨left, mem, hleft⟩ := exists_mem_advanceRule grounded hr rfl hrest
          (leftmost_of_forall grounded.reaches r)
        exact ⟨left, List.mem_append_left _ mem, hleft⟩
  · rintro ⟨left, mem, hleft⟩
    induction s with
    | nil => contradiction
    | cons r rest ih =>
      rcases List.mem_append.1 mem with hr | hrest
      · exact derivesAll_of_mem_advanceRule grounded
          (fun _ _ mem => derivesAll_of_mem_advanceCall grounded mem hleft) hr hleft
      · split at hrest
        · next vanishes => exact (ih hrest).skip ((derives_nil_iff grounded).2 vanishes)
        · contradiction

/-! ## Whole rows -/

lemma recogniseFrom_iff (grounded : Grounded g) {candidates : List (Stack N T)} {row : List α} :
    recogniseFrom g candidates row = true ↔ ∃ s ∈ candidates, DerivesAll g s row := by
  induction row generalizing candidates with
  | nil => simp only [recogniseFrom, List.any_eq_true, derivesAll_nil_iff grounded]
  | cons a row ih =>
    rw [recogniseFrom, ih]
    constructor
    · rintro ⟨left, mem, derived⟩
      obtain ⟨s, hs, advanced⟩ := List.mem_flatMap.1 mem
      exact ⟨s, hs, (derivesAll_cons_iff grounded).2 ⟨left, advanced, derived⟩⟩
    · rintro ⟨s, hs, derived⟩
      obtain ⟨left, advanced, hleft⟩ := (derivesAll_cons_iff grounded).1 derived
      exact ⟨left, List.mem_flatMap.2 ⟨s, hs, advanced⟩, hleft⟩

/-- A grounded grammar derives the rows that are recognised. -/
theorem recognise_iff (grounded : Grounded g) {n : N} {row : List α} :
    recognise g n row = true ↔ Derives g (.call n) row := by
  rw [recognise, recogniseFrom_iff grounded]
  constructor
  · rintro ⟨s, mem, derived⟩
    obtain rfl := List.mem_singleton.1 mem
    obtain ⟨u, v, rfl, hcall, hnil⟩ := DerivesAll.cons_iff.1 derived
    cases hnil
    rwa [List.append_nil]
  · exact fun h => ⟨[.call n], List.mem_singleton_self _, by
      simpa using DerivesAll.cons h .nil⟩

end Grounded

end SparqlFormat.Grammar
