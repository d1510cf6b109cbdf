import Mathlib.Data.List.Basic
import Mathlib.Data.List.TakeWhile
import SparqlFormat.Command.Console

/-!
# What consoles can be relied on for

`Console.Faithful` is all that the command needs of a console: a message without escape characters
is printed as it is, and any message is as many lines as it should be. It says nothing of what
becomes of a message that holds escape characters, and indeed they do not survive everywhere: a
console of streams that are no terminals is faithful too (`ofTerminals_faithful`).
-/

namespace SparqlFormat.Command

/-- A message is printed as a line, and nothing but control sequences is lost. -/
structure Console.Faithful (c : Console) : Prop where
  plain : ∀ stream message, escape ∉ message → c.echo stream message = message ++ ['\n']
  feeds : ∀ stream message, (c.echo stream message).count '\n' = message.count '\n' + 1

/-! ## Control sequences -/

section ControlSequences

variable {cs : List Char}

lemma controlLength?_eq_some {n : Nat} (h : controlLength? cs = some n) :
    ∃ parameters letter rest, cs = '[' :: parameters ++ letter :: rest ∧
      n = parameters.length + 2 ∧ (∀ c ∈ parameters, isParameter c = true) ∧
      letter.isAlpha = true := by
  unfold controlLength? at h
  split at h
  case h_2 => simp at h
  case h_1 cs =>
    split at h
    case h_2 => simp at h
    case h_1 letter rest behind =>
      split at h
      case isFalse => simp at h
      case isTrue isLetter =>
        refine ⟨cs.takeWhile isParameter, letter, rest, ?_, (Option.some.inj h).symm, ?_, isLetter⟩
        · rw [← behind, List.cons_append, List.takeWhile_append_dropWhile]
        · intro c mem
          exact List.mem_takeWhile_imp mem

/-- No line feed is part of a control sequence. -/
lemma count_drop_controlLength {n : Nat} (h : controlLength? cs = some n) :
    (cs.drop n).count '\n' = cs.count '\n' := by
  obtain ⟨parameters, letter, rest, rfl, rfl, areParameters, isLetter⟩ := controlLength?_eq_some h
  have noFeed : '\n' ∉ parameters := fun mem =>
    absurd (areParameters '\n' mem) (by decide)
  have notLetter : letter ≠ '\n' := by
    rintro rfl
    exact absurd isLetter (by decide)
  have dropped : ('[' :: parameters ++ letter :: rest).drop (parameters.length + 2) = rest := by
    simp
  rw [dropped, List.count_append, List.count_cons_of_ne (by decide),
    List.count_cons_of_ne notLetter, List.count_eq_zero_of_not_mem noFeed, Nat.zero_add]

lemma count_stripFrom (skip : Nat) (cs : List Char) :
    (stripFrom skip cs).count '\n' = (cs.drop skip).count '\n' := by
  induction cs generalizing skip with
  | nil => simp [stripFrom]
  | cons c cs ih =>
    cases skip with
    | succ skip => exact ih skip
    | zero =>
      rw [stripFrom]
      split
      case isFalse => rw [List.count_cons, ih, List.drop_zero, List.drop_zero, List.count_cons]
      case isTrue isEscape =>
        have notFeed : c ≠ '\n' := by
          rintro rfl
          exact absurd isEscape (by decide)
        rw [List.drop_zero, List.count_cons_of_ne notFeed]
        split
        case h_1 n found => rw [ih, count_drop_controlLength found]
        case h_2 => rw [List.count_cons_of_ne notFeed, ih, List.drop_zero]

lemma stripAnsi_of_not_mem (h : escape ∉ cs) : stripAnsi cs = cs := by
  induction cs with
  | nil => rfl
  | cons c cs ih =>
    obtain ⟨other, others⟩ := not_or.1 (List.mem_cons.not.1 h)
    rw [stripAnsi, stripFrom, if_neg (Ne.symm other)]
    exact congrArg (c :: ·) (ih others)

end ControlSequences

theorem Console.ofTerminals_faithful (isTerminal : Stream → Bool) :
    (Console.ofTerminals isTerminal).Faithful where
  plain stream message h := by
    simp only [ofTerminals, stripAnsi_of_not_mem h, ite_self]
  feeds stream message := by
    have kept : (stripAnsi message).count '\n' = message.count '\n' := count_stripFrom 0 message
    simp only [ofTerminals, List.count_append, List.count_singleton_self]
    split
    · rfl
    · rw [kept]

/-! ## What is written -/

section Written

variable (c : Console) (o : Outcome)

lemma Console.write_out (verbose : Bool) (act : Act) :
    c.write verbose .out act = (act.messageOn? .out).toList.flatMap (c.echo .out) := by
  cases act with
  | debug | run => simp [write, Act.messageOn?]
  | echo stream message => cases stream <;> simp [write, Act.messageOn?]

/-- Standard output has nothing but the messages printed there. -/
theorem Console.stdout_eq : c.stdout o = (o.printed .out).flatMap (c.echo .out) := by
  rw [stdout, Outcome.printed, List.filterMap_eq_flatMap_toList, List.flatMap_assoc]
  exact List.flatMap_congr fun act _ => c.write_out o.verbose act

lemma Console.write_err_of_silent (silent : ∀ n, c.runLog false n = []) (act : Act) :
    c.write false .err act = (act.messageOn? .err).toList.flatMap (c.echo .err) := by
  cases act with
  | debug => simp [write, Act.messageOn?]
  | run number => simp [write, Act.messageOn?, silent]
  | echo stream message => cases stream <;> simp [write, Act.messageOn?]

variable {o}

/-- Nor does standard error, if progress is not logged and runs have nothing to say. -/
theorem Console.stderr_eq (quiet : o.verbose = false) (silent : ∀ n, c.runLog false n = []) :
    c.stderr o = (o.printed .err).flatMap (c.echo .err) ++ c.writeExit o.exit := by
  rw [stderr, quiet, Outcome.printed, List.filterMap_eq_flatMap_toList, List.flatMap_assoc]
  congr 1
  exact List.flatMap_congr fun act _ => c.write_err_of_silent silent act

end Written

end SparqlFormat.Command
