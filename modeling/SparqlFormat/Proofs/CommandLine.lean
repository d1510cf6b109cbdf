import SparqlFormat.Proofs.Consoles
import SparqlFormat.Proofs.EntryPoints
import SparqlFormat.Proofs.InputLines
import SparqlFormat.Proofs.OneLine

/-!
# What the command does

Three things come together in the command: which flags are in effect, what is printed for one run,
and what is printed for the runs of many lines.

`InEffect` says where in the arguments a flag counts, without a word on how they are read; that
reading them sets exactly the options asked for is one induction over the flags that are read
(`foldl_withFlag_iff`). What is printed is a matter of the reports alone: texts and messages are
sorted out of them in order (`outputsOf`, `messagesOf`). What a console makes of them is known as
far as it is faithful: a text without escape characters arrives as it is, and a text with them need
not.
-/

namespace SparqlFormat.Command

/-! ## Flags -/

/-- A flag counts if it comes before the first argument that is the double hyphen or does not start
with a hyphen. -/
def InEffect (args : List Argument) (name : String) : Prop :=
  ∃ before after, args = before ++ flag name :: after ∧
    ∀ a ∈ before, a ≠ flag "--" ∧ a.head? = some (.char '-')

section Flags

lemma endsFlags_eq_false {a : Argument} :
    endsFlags a = false ↔ a ≠ flag "--" ∧ a.head? = some (.char '-') := by
  simp [endsFlags]

lemma mem_flagsOf_iff {name : String} (isFlag : endsFlags (flag name) = false)
    (args : List Argument) : flag name ∈ flagsOf args ↔ InEffect args name := by
  constructor
  · intro mem
    obtain ⟨before, after, read⟩ := List.append_of_mem mem
    refine ⟨before, after ++ args.dropWhile fun a => !endsFlags a, ?_, ?_⟩
    · have whole : flagsOf args ++ args.dropWhile (fun a => !endsFlags a) = args :=
        List.takeWhile_append_dropWhile
      rw [← List.cons_append, ← List.append_assoc, ← read, whole]
    · intro a earlier
      have passed : a ∈ flagsOf args := by
        rw [read]
        exact List.mem_append_left _ earlier
      exact endsFlags_eq_false.1 (by simpa using List.mem_takeWhile_imp passed)
  · rintro ⟨before, after, rfl, passed⟩
    have all : ∀ a ∈ before, (!endsFlags a) = true := by
      intro a earlier
      rw [endsFlags_eq_false.2 (passed a earlier)]
      rfl
    rw [flagsOf, List.takeWhile_append_of_pos all, List.takeWhile_cons_of_pos (by simp [isFlag])]
    exact List.mem_append_right _ List.mem_cons_self

/-- What one flag sets, and nothing else sets or unsets, is set by a row of flags if it is among
them. -/
lemma foldl_withFlag_iff {p : Options → Prop} {name : Argument}
    (step : ∀ o a, p (o.withFlag a) ↔ p o ∨ a = name) (flags : List Argument) (o : Options) :
    p (flags.foldl Options.withFlag o) ↔ p o ∨ name ∈ flags := by
  induction flags generalizing o with
  | nil => simp
  | cons a flags ih =>
    rw [List.foldl_cons, ih, step, List.mem_cons, or_assoc, eq_comm]

/-- Each known flag sets one option and leaves the others. -/
lemma withFlag_iff (o : Options) (a : Argument) :
    ((o.withFlag a).mode = .concise ↔ o.mode = .concise ∨ a = flag "-c") ∧
      ((o.withFlag a).decode = true ↔ o.decode = true ∨ a = flag "-d") ∧
      ((o.withFlag a).lines = true ↔ o.lines = true ∨ a = flag "-l") ∧
      ((o.withFlag a).verbose = true ↔ o.verbose = true ∨ a = flag "-v") ∧
      ((o.withFlag a).showHelp = true ↔ o.showHelp = true ∨ a = flag "--help") := by
  unfold Options.withFlag
  split_ifs with c d l v h
  all_goals simp +decide [*]

end Flags

/-- The options are those of the flags that count, and the last argument, whatever it is. -/
structure ReadsOptions (args : List Argument) (o : Options) : Prop where
  concise_iff : o.mode = .concise ↔ InEffect args "-c"
  decode_iff : o.decode = true ↔ InEffect args "-d"
  lines_iff : o.lines = true ↔ InEffect args "-l"
  verbose_iff : o.verbose = true ↔ InEffect args "-v"
  help_iff : o.showHelp = true ↔ InEffect args "--help"
  argument_eq : o.argument = args.getLast?

lemma ofArguments_iff {p : Options → Prop} {name : String} (args : List Argument)
    (isFlag : endsFlags (flag name) = false) (fresh : ¬ p .default)
    (step : ∀ o a, p (o.withFlag a) ↔ p o ∨ a = flag name) :
    p ((flagsOf args).foldl Options.withFlag .default) ↔ InEffect args name := by
  rw [foldl_withFlag_iff step, mem_flagsOf_iff isFlag]
  exact or_iff_right fresh

theorem readsOptions (args : List Argument) : ReadsOptions args (.ofArguments args) where
  concise_iff := ofArguments_iff (p := fun o => o.mode = .concise) args (by decide) (by decide)
    fun o a => (withFlag_iff o a).1
  decode_iff := ofArguments_iff (p := fun o => o.decode = true) args (by decide) (by decide)
    fun o a => (withFlag_iff o a).2.1
  lines_iff := ofArguments_iff (p := fun o => o.lines = true) args (by decide) (by decide)
    fun o a => (withFlag_iff o a).2.2.1
  verbose_iff := ofArguments_iff (p := fun o => o.verbose = true) args (by decide) (by decide)
    fun o a => (withFlag_iff o a).2.2.2.1
  help_iff := ofArguments_iff (p := fun o => o.showHelp = true) args (by decide) (by decide)
    fun o a => (withFlag_iff o a).2.2.2.2
  argument_eq := rfl

/-! ## What is printed -/

/-- The texts in the reports of lines. -/
def outputsOf (reports : List (Nat × Report)) : List (List Char) :=
  reports.filterMap fun entry => entry.2.ending.output?

/-- The messages in the reports of lines, with the numbers of the lines. -/
def messagesOf (reports : List (Nat × Report)) : List (Nat × String) :=
  reports.filterMap fun entry => entry.2.ending.error?.map fun message => (entry.1, message)

/-- The message of a line as it is printed. -/
def numbered (entry : Nat × String) : List Char :=
  ("Error: line " ++ toString entry.1 ++ ": " ++ entry.2).toList

section Printed

variable {options : Options} {ending : Ending}

/-- One run prints its text, or else its error, and the command exits accordingly. -/
lemma ofEnding_output {text : List Char} (h : ending.output? = some text) :
    (ofEnding options ending).printed .out = [text] ∧
      (ofEnding options ending).printed .err = [] ∧
      (ofEnding options ending).exit = .code 0 := by
  cases ending with
  | output out =>
    obtain rfl := Option.some.inj h
    exact ⟨rfl, rfl, rfl⟩
  | failure => simp [Ending.output?] at h

lemma ofEnding_error {message : String} (h : ending.error? = some message) :
    (ofEnding options ending).printed .out = [] ∧
      (ofEnding options ending).printed .err = [("Error: " ++ message).toList] ∧
      (ofEnding options ending).exit = .code 2 := by
  cases ending with
  | output => simp [Ending.error?] at h
  | failure stage cause =>
    obtain rfl := Option.some.inj h
    have message : "Error: " ++ "" ++ cause.message = "Error: " ++ cause.message := by
      rw [String.append_empty]
    exact ⟨rfl, congrArg (fun line : String => [line.toList]) message, rfl⟩

lemma printed_lineActs_out (entry : Nat × Report) :
    (lineActs entry).filterMap (Act.messageOn? .out) = entry.2.ending.output?.toList := by
  obtain ⟨number, ⟨ending, baseUri⟩⟩ := entry
  cases ending with
  | output | failure => rfl

lemma printed_lineActs_err (entry : Nat × Report) :
    (lineActs entry).filterMap (Act.messageOn? .err) =
      (entry.2.ending.error?.map fun message => numbered (entry.1, message)).toList := by
  obtain ⟨number, ⟨ending, baseUri⟩⟩ := entry
  cases ending with
  | output => rfl
  | failure stage cause =>
    have message : "Error: " ++ ("line " ++ toString number ++ ": ") ++ cause.message =
        "Error: line " ++ toString number ++ ": " ++ cause.message := by
      rw [← String.append_assoc, ← String.append_assoc]
      rfl
    exact congrArg (fun line : String => [line.toList]) message

/-- How many lines failed is logged and not printed. -/
lemma printed_summary (stream : Stream) (endings : List Ending) :
    (summary endings).filterMap (Act.messageOn? stream) = [] := by
  unfold summary
  split
  · rfl
  · rfl

variable (options) (failure : Option ReadError) (reports : List (Nat × Report))

/-- What is printed for lines is what is printed for each, whether reading them fails or not. -/
lemma printed_ofLines (stream : Stream) :
    (ofLines options failure reports).printed stream =
      reports.flatMap fun entry => (lineActs entry).filterMap (Act.messageOn? stream) := by
  cases failure with
  | none =>
    simp only [ofLines, Outcome.printed, List.cons_append, List.filterMap_cons, Act.messageOn?,
      List.filterMap_append, printed_summary, List.append_nil, List.filterMap_flatMap]
  | some error =>
    simp only [ofLines, Outcome.printed, List.filterMap_cons, Act.messageOn?,
      List.filterMap_flatMap]

lemma printed_ofLines_out : (ofLines options failure reports).printed .out = outputsOf reports := by
  rw [printed_ofLines, outputsOf, List.filterMap_eq_flatMap_toList]
  exact List.flatMap_congr fun entry _ => printed_lineActs_out entry

lemma printed_ofLines_err :
    (ofLines options failure reports).printed .err = (messagesOf reports).map numbered := by
  rw [printed_ofLines, messagesOf, List.map_filterMap, List.filterMap_eq_flatMap_toList]
  refine List.flatMap_congr fun entry _ => ?_
  rw [printed_lineActs_err, Option.map_map]
  rfl

variable {reports}

lemma isFailure_eq (ending : Ending) : isFailure ending = ending.error?.isSome := by
  cases ending <;> rfl

lemma messagesOf_eq_nil :
    messagesOf reports = [] ↔ (reports.map fun entry => entry.2.ending).any isFailure = false := by
  simp [messagesOf, List.filterMap_eq_nil_iff, isFailure_eq]

variable (reports)

/-- The code tells whether some line failed, if all lines were read. -/
lemma exit_ofLines :
    (ofLines options none reports).exit = .code (if messagesOf reports = [] then 0 else 2) := by
  have code : (ofLines options none reports).exit =
      .code (exitCodeOf (reports.map fun entry => entry.2.ending)) := rfl
  rw [code, exitCodeOf]
  by_cases silent : messagesOf reports = []
  · rw [if_pos silent, messagesOf_eq_nil.1 silent]
    rfl
  · have failed : (reports.map fun entry => entry.2.ending).any isFailure = true := by
      rw [messagesOf_eq_nil, Bool.not_eq_false] at silent
      exact silent
    rw [if_neg silent, failed]
    rfl

end Printed

/-! ## The command -/

section Execute

variable {a : Access Id} {input : Input} {f : Formatter Id} {args : List Argument}

lemma execute_usage (h : args = [] ∨ InEffect args "--help") :
    (execute a (pure input) f args).run = ofUsage (.ofArguments args) := by
  have reads := readsOptions args
  rw [← reads.help_iff] at h
  unfold execute
  rcases h with rfl | help
  · rfl
  · simp only [help]
    rfl

/-- The command without its usage: one run, or one for each line. -/
lemma execute_run (noHelp : ¬ InEffect args "--help") {argument : Argument}
    (last : args.getLast? = some argument) :
    (execute a (pure input) f args).run = if (Options.ofArguments args).lines
      then ofLines (.ofArguments args) input.failure
        (lineReports a f (Options.ofArguments args).settings input.lines)
      else ofEnding (.ofArguments args)
        (run (a.reading (pure input)) f
          (Options.ofArguments args).settings argument).run.ending := by
  have reads := readsOptions args
  rw [← reads.help_iff, Bool.not_eq_true] at noHelp
  rw [← runLines_eq a]
  unfold execute
  simp only [noHelp, reads.argument_eq, last]
  split
  · rfl
  · rfl

lemma execute_single {argument : Argument} (last : args.getLast? = some argument)
    (noHelp : ¬ InEffect args "--help") (noLines : ¬ InEffect args "-l") :
    (execute a (pure input) f args).run = ofEnding (.ofArguments args)
      (run (a.reading (pure input)) f (Options.ofArguments args).settings argument).run.ending := by
  rw [execute_run noHelp last, if_neg ((readsOptions args).lines_iff.not.2 noLines)]

lemma ne_nil_of_inEffect {name : String} (h : InEffect args name) : args ≠ [] := by
  obtain ⟨before, after, rfl, -⟩ := h
  simp

lemma execute_lines (noHelp : ¬ InEffect args "--help") (inEffect : InEffect args "-l") :
    (execute a (pure input) f args).run = ofLines (.ofArguments args) input.failure
      (lineReports a f (Options.ofArguments args).settings input.lines) := by
  have last := List.getLast?_eq_some_getLast (ne_nil_of_inEffect inEffect)
  rw [execute_run noHelp last, if_pos ((readsOptions args).lines_iff.2 inEffect)]

lemma verbose_execute :
    (execute a (pure input) f args).run.verbose = (Options.ofArguments args).verbose := by
  by_cases shown : args = [] ∨ InEffect args "--help"
  · rw [execute_usage shown]
    rfl
  obtain ⟨notNil, noHelp⟩ := not_or.1 shown
  rw [execute_run noHelp (List.getLast?_eq_some_getLast notNil)]
  split
  · cases input.failure with
    | none | some => rfl
  · rfl

/-- Only the usage has the code of the usage. -/
lemma exitCodeOf_ne (endings : List Ending) : Exit.code (exitCodeOf endings) ≠ .code 1 := by
  unfold exitCodeOf
  split
  · decide
  · decide

lemma exit_execute_ne (noHelp : ¬ InEffect args "--help") (notNil : args ≠ []) :
    (execute a (pure input) f args).run.exit ≠ .code 1 := by
  rw [execute_run noHelp (List.getLast?_eq_some_getLast notNil)]
  split
  · cases input.failure with
    | none => exact exitCodeOf_ne _
    | some error => exact Exit.noConfusion
  · exact exitCodeOf_ne _

end Execute

/-! ## Lines without files -/

section Independent

variable {a a' : Access Id} {input : Input} {f : Formatter Id} {args args' : List Argument}

lemma settings_eq (c : InEffect args' "-c" ↔ InEffect args "-c")
    (d : InEffect args' "-d" ↔ InEffect args "-d") :
    (Options.ofArguments args').settings = (Options.ofArguments args).settings := by
  have reads := readsOptions args
  have reads' := readsOptions args'
  rw [← reads.concise_iff, ← reads'.concise_iff] at c
  rw [← reads.decode_iff, ← reads'.decode_iff, ← Bool.eq_iff_iff] at d
  have mode : (Options.ofArguments args').mode = (Options.ofArguments args).mode := by
    cases h : (Options.ofArguments args).mode with
    | concise => exact c.2 h
    | pretty =>
      cases h' : (Options.ofArguments args').mode with
      | concise => exact absurd (c.1 h') (by simp [h])
      | pretty => rfl
  rw [Options.settings, Options.settings, mode, d]

/-- Two outcomes of which at most the logs differ. -/
def Outcome.PrintsAs (o o' : Outcome) : Prop :=
  (∀ stream, o.printed stream = o'.printed stream) ∧ o.exit = o'.exit

lemma ofUsage_printsAs (options options' : Options) :
    (ofUsage options).PrintsAs (ofUsage options') :=
  ⟨fun _ => rfl, rfl⟩

lemma ofLines_printsAs (options options' : Options) (failure : Option ReadError)
    (reports : List (Nat × Report)) :
    (ofLines options failure reports).PrintsAs (ofLines options' failure reports) := by
  refine ⟨fun stream => by rw [printed_ofLines, printed_ofLines], ?_⟩
  cases failure with
  | none | some => rfl

/-- With lines, only the flags and standard input matter. -/
lemma execute_printsAs (lines : InEffect args "-l")
    (same : ∀ name ∈ ["-c", "-d", "-l", "--help"], InEffect args' name ↔ InEffect args name) :
    (execute a' (pure input) f args').run.PrintsAs (execute a (pure input) f args).run := by
  have lines' : InEffect args' "-l" := (same "-l" (by simp)).2 lines
  have help := same "--help" (by simp)
  by_cases shown : InEffect args "--help"
  · rw [execute_usage (.inr shown), execute_usage (.inr (help.2 shown))]
    exact ofUsage_printsAs ..
  have settings := settings_eq (same "-c" (by simp)) (same "-d" (by simp))
  rw [execute_lines shown lines, execute_lines (help.not.2 shown) lines', settings,
    ← runLines_eq a', ← runLines_eq a]
  exact ofLines_printsAs ..

end Independent

/-! ## One line for each query -/

section OneLine

variable {a : Access Id} {checker? : Option Checker} {settings : Settings}

lemma exists_of_runBytes_output {f : Formatter Id} {data : List UInt8} {out : List Char}
    (h : (runBytes f settings data).run.output? = some out) :
    ∃ text, (f settings.mode text).run = .ok out := by
  unfold runBytes at h
  split at h
  case h_1 => simp [Ending.output?] at h
  split at h
  case h_1 => simp [Ending.output?] at h
  case h_2 text _ =>
    refine ⟨text, ?_⟩
    cases answer : (f settings.mode text).run with
    | error rejection =>
      have answered : f settings.mode text = pure (.error rejection) := answer
      simp [answered, Ending.output?] at h
    | ok out' =>
      have answered : f settings.mode text = pure (.ok out') := answer
      obtain rfl : out' = out := by simpa [answered, Ending.output?] using h
      rfl

/-- On one line, what is written for a line of standard input is one line. -/
lemma unbroken_of_mem_outputsOf (concise : settings.mode = .concise) {lines : List (List UInt8)}
    {out : List Char}
    (mem : out ∈ outputsOf (lineReports a (Formatter.standard checker?) settings lines)) :
    Unbroken out := by
  obtain ⟨entry, reported, output⟩ := List.mem_filterMap.1 mem
  obtain ⟨⟨line, number⟩, -, ran⟩ := List.mem_filterMap.1 reported
  simp only [lineReport?, run_withInput] at ran
  split at ran
  case isTrue => simp at ran
  case isFalse =>
    obtain rfl := Option.some.inj ran
    obtain ⟨text, written⟩ := exists_of_runBytes_output output
    rw [concise] at written
    exact unbroken_reformat written

/-- A faithful console prints texts without line breaks on as many lines as there are texts. -/
lemma count_lines {c : Console} (faithful : c.Faithful) {texts : List (List Char)}
    (unbroken : ∀ text ∈ texts, Unbroken text) :
    (texts.flatMap (c.echo .out)).count '\n' = texts.length := by
  induction texts with
  | nil => rfl
  | cons text texts ih =>
    obtain ⟨first, others⟩ := List.forall_mem_cons.1 unbroken
    have noFeed : '\n' ∉ text := by
      intro mem
      exact absurd (first '\n' mem) (by decide)
    rw [List.flatMap_cons, List.count_append, ih others, faithful.feeds,
      List.count_eq_zero_of_not_mem noFeed, List.length_cons]
    omega

lemma flatMap_echo {c : Console} (faithful : c.Faithful) (stream : Stream)
    {texts : List (List Char)} (plain : ∀ text ∈ texts, escape ∉ text) :
    texts.flatMap (c.echo stream) = texts.flatMap fun text => text ++ ['\n'] :=
  List.flatMap_congr fun text mem => faithful.plain stream text (plain text mem)

end OneLine

/-! ## The contract -/

/-- What the command does, by its arguments, its surroundings and the reports of runs. -/
structure FollowsContract (c : Console) (a : Access Id) (input : Input) (f : Formatter Id)
    (args : List Argument) (options : Options) (outcome : Outcome) : Prop where
  /-- The options are those of the flags in effect, and of the last argument. -/
  reads : ReadsOptions args options
  /-- The usage, and nothing else, has its code. -/
  usage_iff : outcome.exit = .code 1 ↔ args = [] ∨ InEffect args "--help"
  usage : args = [] ∨ InEffect args "--help" →
    c.stdout outcome = (usageLines.flatMap fun line => line.toList ++ ['\n']) ∧
      outcome.printed .err = []
  /-- The last argument is run, and its text is printed. -/
  output : ∀ argument text, args.getLast? = some argument → ¬ InEffect args "--help" →
    ¬ InEffect args "-l" →
      (run (a.reading (pure input)) f options.settings argument).run.ending.output? = some text →
        outcome.exit = .code 0 ∧ c.stdout outcome = c.echo .out text ∧
          outcome.printed .err = [] ∧ (escape ∉ text → c.stdout outcome = text ++ ['\n'])
  /-- If it fails, its message is printed, and nothing on standard output. -/
  error : ∀ argument message, args.getLast? = some argument → ¬ InEffect args "--help" →
    ¬ InEffect args "-l" →
      (run (a.reading (pure input)) f options.settings argument).run.ending.error? = some message →
        outcome.exit = .code 2 ∧ c.stdout outcome = [] ∧
          outcome.printed .err = [("Error: " ++ message).toList]
  /-- With lines, the texts are printed in their order on one side and the messages on the other. -/
  lines : ∀ lines, ¬ InEffect args "--help" → InEffect args "-l" → input.Gives lines →
    c.stdout outcome =
        (outputsOf (lineReports a f options.settings lines)).flatMap (c.echo .out) ∧
      outcome.printed .err = (messagesOf (lineReports a f options.settings lines)).map numbered ∧
      ((∀ text ∈ outputsOf (lineReports a f options.settings lines), escape ∉ text) →
        c.stdout outcome = (outputsOf (lineReports a f options.settings lines)).flatMap
          fun text => text ++ ['\n'])
  /-- If standard input can be read, the code tells whether there is any message. -/
  code : ∀ lines, ¬ InEffect args "--help" → InEffect args "-l" → input.failure = none →
    input.Gives lines → outcome.exit =
      .code (if messagesOf (lineReports a f options.settings lines) = [] then 0 else 2)
  /-- If it cannot, nothing handles that, and the code is that of the usage. -/
  unreadable : ∀ error, ¬ InEffect args "--help" → InEffect args "-l" →
    input.failure = some error → outcome.exit = .uncaught error ∧ outcome.exit.status = 1
  /-- Standard error has the messages, unless progress is logged or a run has something to say. -/
  stderr : ¬ InEffect args "-v" → (∀ number, c.runLog false number = []) →
    c.stderr outcome = (outcome.printed .err).flatMap (c.echo .err) ++ c.writeExit outcome.exit
  /-- With lines, neither the other arguments nor the files matter. -/
  independent : ∀ (a' : Access Id) (args' : List Argument), InEffect args "-l" →
    (∀ name ∈ ["-c", "-d", "-l", "--help"], InEffect args' name ↔ InEffect args name) →
      ((execute a' (pure input) f args').run).PrintsAs outcome
  /-- With lines, and each query on one line, there are as many lines as queries that succeed. -/
  oneLine : ∀ lines, ¬ InEffect args "--help" → InEffect args "-l" → InEffect args "-c" →
    input.Gives lines →
      (∀ text ∈ outputsOf (lineReports a f options.settings lines), Unbroken text) ∧
      (c.stdout outcome).count '\n' = (outputsOf (lineReports a f options.settings lines)).length

/-- The command, with the formatter of this library, keeps to its contract on every faithful
console, for all arguments, all files and all that standard input may give. -/
theorem command_follows_contract {c : Console} (faithful : c.Faithful) (checker? : Option Checker)
    (a : Access Id) (input : Input) (args : List Argument) :
    FollowsContract c a input (.standard checker?) args (.ofArguments args)
      (execute a (pure input) (.standard checker?) args).run where
  reads := readsOptions args
  usage_iff := by
    constructor
    · intro code
      by_contra neither
      obtain ⟨notNil, noHelp⟩ := not_or.1 neither
      exact exit_execute_ne noHelp notNil code
    · intro shown
      rw [execute_usage shown]
      rfl
  usage shown := by
    have plain : ∀ line ∈ usageLines.map String.toList, escape ∉ line := by decide
    rw [execute_usage shown, c.stdout_eq]
    exact ⟨(flatMap_echo faithful .out plain).trans (List.flatMap_map ..), rfl⟩
  output argument text last noHelp noLines output := by
    obtain ⟨out, err, exit⟩ := ofEnding_output output
    rw [execute_single last noHelp noLines, c.stdout_eq, out, List.flatMap_singleton]
    exact ⟨exit, rfl, err, faithful.plain .out text⟩
  error argument message last noHelp noLines error := by
    obtain ⟨out, err, exit⟩ := ofEnding_error error
    rw [execute_single last noHelp noLines, c.stdout_eq, out]
    exact ⟨exit, rfl, err⟩
  lines lines noHelp inEffect gives := by
    obtain rfl := Input.lines_eq_iff.2 gives
    rw [execute_lines noHelp inEffect, c.stdout_eq, printed_ofLines_out]
    exact ⟨rfl, printed_ofLines_err .., flatMap_echo faithful .out⟩
  code lines noHelp inEffect ends gives := by
    obtain rfl := Input.lines_eq_iff.2 gives
    rw [execute_lines noHelp inEffect, ends, exit_ofLines]
  unreadable error noHelp inEffect fails := by
    rw [execute_lines noHelp inEffect, fails]
    exact ⟨rfl, rfl⟩
  stderr quiet silent := by
    have verbose : (Options.ofArguments args).verbose = false := by
      rw [← Bool.not_eq_true, (readsOptions args).verbose_iff]
      exact quiet
    exact c.stderr_eq (verbose_execute.trans verbose) silent
  independent a' args' inEffect same := execute_printsAs inEffect same
  oneLine lines noHelp inEffect concise gives := by
    have mode : (Options.ofArguments args).settings.mode = .concise :=
      (readsOptions args).concise_iff.2 concise
    have unbroken : ∀ text ∈ outputsOf (lineReports a (.standard checker?) _ lines),
        Unbroken text := fun text mem => unbroken_of_mem_outputsOf mode mem
    obtain rfl := Input.lines_eq_iff.2 gives
    rw [execute_lines noHelp inEffect, c.stdout_eq, printed_ofLines_out]
    exact ⟨unbroken, count_lines faithful unbroken⟩

/-- A console of which both streams are pipes. -/
def pipes : Console :=
  .ofTerminals fun _ => false

/-- A query with a control sequence in a string, as it is laid out on one line. -/
def redQuery : List Char :=
  "ASK \x7b ?s ?p '\x1b[31mred' \x7d".toList

/-- The contract holds on pipes, and there the string changes: the query is the output of its run,
and what is written is another query. -/
theorem command_follows_contract_pipes :
    pipes.Faithful ∧
      let args := [flag "-c", .ofText redQuery]
      let outcome := (execute .bare (pure ⟨[], none⟩) (.standard (some .grammar)) args).run
      (run (Access.bare.reading (pure ⟨[], none⟩)) (.standard (some .grammar)) ⟨.concise, false⟩
          (.ofText redQuery)).run.ending.output? = some redQuery ∧
        outcome.exit = .code 0 ∧ outcome.printed .err = [] ∧
        pipes.stdout outcome = "ASK \x7b ?s ?p 'red' \x7d\n".toList ∧
        pipes.stdout outcome ≠ redQuery ++ ['\n'] := by
  have faithful : pipes.Faithful := Console.ofTerminals_faithful _
  have noHelp : ¬ InEffect [flag "-c", .ofText redQuery] "--help" := by
    rw [← mem_flagsOf_iff (by decide)]
    decide
  have noLines : ¬ InEffect [flag "-c", .ofText redQuery] "-l" := by
    rw [← mem_flagsOf_iff (by decide)]
    decide
  have ran : (run (Access.bare.reading (pure ⟨[], none⟩)) (.standard (some .grammar))
      (Options.ofArguments [flag "-c", .ofText redQuery]).settings
        (.ofText redQuery)).run.ending.output? = some redQuery := by
    decide +kernel
  have stripped : pipes.echo .out redQuery = "ASK \x7b ?s ?p 'red' \x7d\n".toList := by
    decide
  obtain ⟨exit, written, silent, -⟩ := (command_follows_contract faithful (some .grammar) .bare
    ⟨[], none⟩ [flag "-c", .ofText redQuery]).output _ _ rfl noHelp noLines ran
  refine ⟨faithful, ran, exit, silent, written.trans stripped, ?_⟩
  rw [written, stripped]
  decide

/-- Of three lines and a piece of a fourth, one is blank and the last one fails; then standard input
does. The argument after the flags is not looked at, and the flag after it does not count. -/
example :
    let data := Utf8.encode "ask\x7b\x7d\n \r\nask\nASK".toList
    let outcome := (execute .bare (pure ⟨data, some .deviceFailed⟩) (.standard (some .grammar))
      [flag "-l", flag "-c", .ofText "x".toList, flag "-d"]).run
    pipes.stdout outcome = "ASK \x7b \x7d\n".toList ∧
      outcome.printed .err = ["Error: line 3: Failed to parse query: not a query".toList] ∧
      outcome.exit = .uncaught .deviceFailed := by
  decide +kernel

end SparqlFormat.Command
