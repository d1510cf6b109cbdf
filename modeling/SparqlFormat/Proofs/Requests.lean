import Mathlib.Tactic.Common
import Mathlib.Tactic.Lemma
import SparqlFormat.Run.Basic

/-!
# What is asked to find a query

A traced computation is described by its value and by the requests it makes (`Trace.Makes`), and
descriptions of steps compose to those of runs. The files, standard input and the formatter are
pure here; `Proofs/Surroundings` is about those that change in the course of a run.

`Access.Resolves` says which source an argument stands for, `Access.Provides` which bytes a source
holds, and `Access.Lacks` why there are none. The bytes of a query are found as these three say
(`fetch_makes`, `fetch_makes_error`), and one of them always applies (`fetches_or_lacks`). Which
requests that takes depends on the argument and on whether it is the name of a file, but not on
whether the bytes can be read: they are `lookups`.
-/

namespace SparqlFormat

/-! ## Traced computations -/

namespace Trace

variable {α β : Type} {t : Trace α} {a : α} {requests : List Request}

/-- The computation gives the value and makes the requests, whatever was requested before. -/
def Makes (t : Trace α) (requests : List Request) (a : α) : Prop :=
  ∀ record, t record = (a, record ++ requests)

lemma makes_pure (a : α) : Makes (pure a) [] a := by
  intro record
  rw [List.append_nil]
  rfl

lemma makes_answer {x : Id α} (value : x.run = a) (request : Request) :
    (answer request x.run).Makes [request] a := by
  subst value
  intro record
  rfl

lemma Makes.bind {next : α → Trace β} {others : List Request} {b : β} (h : t.Makes requests a)
    (h' : (next a).Makes others b) : (t >>= next).Makes (requests ++ others) b := by
  intro record
  have step : (t >>= next) record = next (t record).1 (t record).2 := rfl
  rw [step, h record, h' (record ++ requests), List.append_assoc]

lemma Makes.bind_pure {f : α → β} (h : t.Makes requests a) :
    (t >>= fun a => pure (f a)).Makes requests (f a) := by
  have worked : (t >>= fun a => pure (f a)).Makes (requests ++ []) (f a) :=
    h.bind (makes_pure (f a))
  rwa [List.append_nil] at worked

lemma Makes.record_eq (h : t.Makes requests a) : t.record = (a, requests) :=
  h []

end Trace

/-! ## The text of an argument -/

namespace Argument

lemma text?_eq_some_iff {argument : Argument} {text : List Char} :
    argument.text? = some text ↔ argument = .ofText text := by
  constructor
  · intro isText
    induction argument generalizing text with
    | nil =>
      obtain rfl : [] = text := by simpa [text?] using isText
      rfl
    | cons unit rest ih =>
      cases unit with
      | char c =>
        obtain ⟨others, restIsText, rfl⟩ := Option.map_eq_some_iff.1 isText
        rw [ih restIsText]
        rfl
      | stray b => simp [text?] at isText
  · rintro rfl
    exact text?_ofText text

lemma text?_eq_none_iff {argument : Argument} :
    argument.text? = none ↔ ∀ text, argument ≠ .ofText text := by
  simp only [Option.eq_none_iff_forall_ne_some, ne_eq, text?_eq_some_iff]

end Argument

/-! ## Sources and their bytes -/

/-- The source that an argument stands for. -/
inductive Access.Resolves (a : Access Id) (argument : Argument) : Source → Prop
  | input : argument = inputArgument → Resolves a argument .input
  | file : argument ≠ inputArgument → (a.fileExists argument).run = true →
      Resolves a argument (.file argument (a.baseUri argument).run)
  | literal {text : List Char} : argument ≠ inputArgument →
      (a.fileExists argument).run = false → argument = .ofText text →
      Resolves a argument (.literal text)

/-- The bytes that a source holds. -/
inductive Access.Provides (a : Access Id) : Source → List UInt8 → Prop
  | input {data : List UInt8} : a.inputBytes.run = .ok data → Provides a .input data
  | file {path : Argument} {uri : List Char} {data : List UInt8} :
      (a.fileBytes path).run = .ok data → Provides a (.file path uri) data
  | literal {text : List Char} : Provides a (.literal text) (Utf8.encode text)

/-- Why a source cannot be read. -/
inductive Access.Refuses (a : Access Id) : Source → Failure → Prop
  | input {error : ReadError} : a.inputBytes.run = .error error →
      Refuses a .input (.unreadableInput error)
  | file {path : Argument} {uri : List Char} {error : ReadError} :
      (a.fileBytes path).run = .error error →
      Refuses a (.file path uri) (.unreadableFile path error)

/-- Why there are no bytes for an argument: it stands for nothing, or its source cannot be read. -/
inductive Access.Lacks (a : Access Id) (argument : Argument) : Failure → Prop
  | notText : argument ≠ inputArgument → (a.fileExists argument).run = false →
      (∀ text, argument ≠ .ofText text) → Lacks a argument .argumentNotText
  | unreadable {source : Source} {cause : Failure} : a.Resolves argument source →
      a.Refuses source cause → Lacks a argument cause

/-- What is asked to find the bytes of a query. -/
def lookups (a : Access Id) (argument : Argument) : List Request :=
  if argument = inputArgument then [.inputBytes]
  else if (a.fileExists argument).run then
    [.fileExists argument, .baseUri argument, .fileBytes argument]
  else [.fileExists argument]

/-- What is asked to find a source. -/
def Source.searches : Source → List Request
  | .input => []
  | .file path _ => [.fileExists path, .baseUri path]
  | .literal text => [.fileExists (.ofText text)]

/-- What is asked to read a source. -/
def Source.reads : Source → List Request
  | .input => [.inputBytes]
  | .file path _ => [.fileBytes path]
  | .literal _ => []

section Fetch

variable {a : Access Id} {argument : Argument}

lemma resolves_or_notText (a : Access Id) (argument : Argument) :
    (∃ source, a.Resolves argument source) ∨ a.Lacks argument .argumentNotText := by
  by_cases isInput : argument = inputArgument
  · exact .inl ⟨_, .input isInput⟩
  cases reachable : (a.fileExists argument).run with
  | true => exact .inl ⟨_, .file isInput reachable⟩
  | false =>
    cases isText : argument.text? with
    | some text => exact .inl ⟨_, .literal isInput reachable (Argument.text?_eq_some_iff.1 isText)⟩
    | none => exact .inr (.notText isInput reachable (Argument.text?_eq_none_iff.1 isText))

lemma provides_or_refuses (a : Access Id) (source : Source) :
    (∃ data, a.Provides source data) ∨ ∃ cause, a.Refuses source cause := by
  cases source with
  | input =>
    cases read : a.inputBytes.run with
    | ok data => exact .inl ⟨data, .input read⟩
    | error error => exact .inr ⟨_, .input read⟩
  | file path uri =>
    cases read : (a.fileBytes path).run with
    | ok data => exact .inl ⟨data, .file read⟩
    | error error => exact .inr ⟨_, .file read⟩
  | literal text => exact .inl ⟨_, .literal⟩

lemma fetches_or_lacks (a : Access Id) (argument : Argument) :
    (∃ source data, a.Resolves argument source ∧ a.Provides source data) ∨
      ∃ cause, a.Lacks argument cause := by
  rcases resolves_or_notText a argument with ⟨source, resolved⟩ | lacking
  · rcases provides_or_refuses a source with ⟨data, provided⟩ | ⟨cause, refused⟩
    · exact .inl ⟨source, data, resolved, provided⟩
    · exact .inr ⟨cause, .unreadable resolved refused⟩
  · exact .inr ⟨_, lacking⟩

/-- Finding the source asks for the file at most. -/
lemma sourceOf_makes {source : Source} (resolved : a.Resolves argument source) :
    (Source.of a.traced argument).Makes source.searches (.ok source) := by
  unfold Source.of
  cases resolved with
  | input isInput =>
    rw [if_pos isInput]
    exact Trace.makes_pure _
  | file notInput reachable =>
    rw [if_neg notInput]
    have asked := Trace.makes_answer reachable (.fileExists argument)
    exact asked.bind (Trace.makes_answer rfl (.baseUri argument)).bind_pure
  | @literal text notInput absent isText =>
    rw [if_neg notInput]
    subst isText
    have asked := Trace.makes_answer absent (.fileExists (.ofText text))
    simp only [Argument.text?_ofText]
    exact asked.bind (Trace.makes_pure _)

/-- An argument that stands for nothing was taken for the name of a file first. -/
lemma sourceOf_makes_error (notInput : argument ≠ inputArgument)
    (absent : (a.fileExists argument).run = false) (notText : ∀ text, argument ≠ .ofText text) :
    (Source.of a.traced argument).Makes [.fileExists argument] (.error .argumentNotText) := by
  unfold Source.of
  rw [if_neg notInput]
  have asked := Trace.makes_answer absent (.fileExists argument)
  simp only [Argument.text?_eq_none_iff.2 notText]
  exact asked.bind (Trace.makes_pure _)

lemma read_makes {source : Source} {data : List UInt8} (provided : a.Provides source data) :
    (source.read a.traced).Makes source.reads (.ok data) := by
  cases provided with
  | input read => exact (Trace.makes_answer read _).bind_pure
  | file read => exact (Trace.makes_answer read _).bind_pure
  | literal => exact Trace.makes_pure _

lemma read_makes_error {source : Source} {cause : Failure} (refused : a.Refuses source cause) :
    (source.read a.traced).Makes source.reads (.error cause) := by
  cases refused with
  | input read => exact (Trace.makes_answer read _).bind_pure
  | file read => exact (Trace.makes_answer read _).bind_pure

/-- What is asked to find a source and to read it depends on the argument only. -/
lemma searches_append_reads {source : Source} (resolved : a.Resolves argument source) :
    source.searches ++ source.reads = lookups a argument := by
  unfold lookups
  cases resolved with
  | input isInput =>
    rw [if_pos isInput]
    rfl
  | file notInput reachable =>
    rw [if_neg notInput, if_pos reachable]
    rfl
  | literal notInput absent isText =>
    rw [if_neg notInput, if_neg (by simp [absent]), isText]
    rfl

/-- The bytes of a source are found. -/
theorem fetch_makes {source : Source} {data : List UInt8} (resolved : a.Resolves argument source)
    (provided : a.Provides source data) :
    (RawQuery.fetch a.traced argument).Makes (lookups a argument) (.ok ⟨source, data⟩) := by
  rw [← searches_append_reads resolved]
  exact (sourceOf_makes resolved).bind (read_makes provided).bind_pure

/-- The bytes are not found, for the reason given. -/
theorem fetch_makes_error {cause : Failure} (lacking : a.Lacks argument cause) :
    (RawQuery.fetch a.traced argument).Makes (lookups a argument) (.error cause) := by
  cases lacking with
  | notText notInput absent notText =>
    rw [lookups, if_neg notInput, if_neg (by simp [absent])]
    exact (sourceOf_makes_error notInput absent notText).bind (Trace.makes_pure _)
  | unreadable resolved refused =>
    rw [← searches_append_reads resolved]
    exact (sourceOf_makes resolved).bind (read_makes_error refused).bind_pure

end Fetch

end SparqlFormat
