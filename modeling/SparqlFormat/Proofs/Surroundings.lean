import Mathlib.Tactic.Common
import Mathlib.Tactic.Lemma
import SparqlFormat.Run.Basic

/-!
# Surroundings that change

Files come and go, standard input is used up, and a formatter need not answer the same text in the
same way twice. Here the surroundings have a state that every request may change, and a record of
the requests is kept beside it (`Recording`).

A run asks for each thing once at most, and so it cannot tell such surroundings from others that
stay as they are and give the answers that it got (`Access.answers`, `Formatter.answers`): it
reports the same and makes the same requests (`run_alike`). What holds of every run in surroundings
that stay as they are therefore holds of every run.
-/

namespace SparqlFormat

variable {σ α β : Type}

/-- Computations in surroundings with a state, with a record of what is asked. -/
abbrev Recording (σ : Type) := StateM (σ × List Request)

/-- Asks and records what was asked. -/
def Recording.ask (request : Request) (answer : StateM σ α) : Recording σ α :=
  fun before => ((answer before.1).1, ((answer before.1).2, before.2 ++ [request]))

/-- The value and the requests of a computation that begins in this state. -/
def Recording.recordFrom (t : Recording σ α) (state : σ) : α × List Request :=
  ((t (state, [])).1, (t (state, [])).2.2)

/-- Operations with every request recorded. -/
def Access.recorded (w : Access (StateM σ)) : Access (Recording σ) where
  fileExists path := .ask (.fileExists path) (w.fileExists path)
  baseUri path := .ask (.baseUri path) (w.baseUri path)
  fileBytes path := .ask (.fileBytes path) (w.fileBytes path)
  inputBytes := .ask .inputBytes w.inputBytes

/-- A formatter with every request recorded. -/
def Formatter.recorded (f : Formatter (StateM σ)) : Formatter (Recording σ) :=
  fun mode text => .ask (.reformat mode text) (f mode text)

/-! ## The answers of one run -/

/-- The answers that a run gets which begins in this state: each request finds the state that the
requests before it leave. -/
def Access.answers (w : Access (StateM σ)) (state : σ) : Access Id where
  fileExists path := (w.fileExists path state).1
  baseUri path := (w.baseUri path (w.fileExists path state).2).1
  fileBytes path := (w.fileBytes path (w.baseUri path (w.fileExists path state).2).2).1
  inputBytes := (w.inputBytes state).1

/-- The state after a query was looked for. -/
def Access.after (w : Access (StateM σ)) (state : σ) (argument : Argument) : σ :=
  if argument = inputArgument then (w.inputBytes state).2
  else if (w.fileExists argument state).1 then
    (w.fileBytes argument (w.baseUri argument (w.fileExists argument state).2).2).2
  else (w.fileExists argument state).2

/-- The answers of a formatter that is asked in this state. -/
def Formatter.answers (f : Formatter (StateM σ)) (state : σ) : Formatter Id :=
  fun mode text => (f mode text state).1

/-! ## Runs that cannot tell -/

/-- From this state, a computation gives the value and makes the requests that another one does. -/
def Alike (t : Recording σ α) (p : Trace α) (state : σ) : Prop :=
  ∀ record, (t (state, record)).1 = (p record).1 ∧ (t (state, record)).2.2 = (p record).2

/-- The same, and it ends in a state that does not depend on the record. -/
def AlikeTo (t : Recording σ α) (p : Trace α) (state after : σ) : Prop :=
  ∀ record, t (state, record) = ((p record).1, (after, (p record).2))

section Alike

variable {t : Recording σ α} {p : Trace α} {state after : σ}

lemma alike_pure (a : α) : Alike (pure a : Recording σ α) (pure a) state :=
  fun _ => ⟨rfl, rfl⟩

lemma AlikeTo.bind {next : α → Recording σ β} {next' : α → Trace β} (h : AlikeTo t p state after)
    (h' : ∀ a, Alike (next a) (next' a) after) : Alike (t >>= next) (p >>= next') state := by
  intro record
  have step : (t >>= next) (state, record) =
      next (t (state, record)).1 (t (state, record)).2 := rfl
  have step' : (p >>= next') record = next' (p record).1 (p record).2 := rfl
  rw [step, step', h record]
  exact h' (p record).1 (p record).2

lemma Alike.bind_pure {g : α → β} (h : Alike t p state) :
    Alike (t >>= fun a => pure (g a)) (p >>= fun a => pure (g a)) state := by
  intro record
  obtain ⟨value, requests⟩ := h record
  exact ⟨congrArg g value, requests⟩

lemma AlikeTo.bind_pure {g : α → β} (h : AlikeTo t p state after) :
    AlikeTo (t >>= fun a => pure (g a)) (p >>= fun a => pure (g a)) state after := by
  intro record
  exact congrArg (fun result => (g result.1, result.2)) (h record)

lemma alikeTo_ask {answer : StateM σ α} (request : Request) :
    AlikeTo (.ask request answer) (.answer request (answer state).1) state (answer state).2 :=
  fun _ => rfl

lemma alikeTo_pure (a : α) : AlikeTo (pure a : Recording σ α) (pure a) state state :=
  fun _ => rfl

/-- What comes after a request begins with the answer to it, in the state that it leaves. -/
lemma AlikeTo.ask_bind {request : Request} {answer : StateM σ α} {next : α → Recording σ β}
    {next' : α → Trace β}
    (h : AlikeTo (next (answer state).1) (next' (answer state).1) (answer state).2 after) :
    AlikeTo (.ask request answer >>= next) (.answer request (answer state).1 >>= next') state
      after :=
  fun record => h (record ++ [request])

lemma Alike.recordFrom_eq (h : Alike t p state) : t.recordFrom state = p.record := by
  obtain ⟨value, requests⟩ := h []
  exact Prod.ext value requests

end Alike

variable (w : Access (StateM σ)) (f : Formatter (StateM σ)) (state : σ) (settings : Settings)
  (argument : Argument)

/-- A query is looked for in three ways, and none of them asks for one thing twice. -/
lemma fetch_alikeTo :
    AlikeTo (RawQuery.fetch w.recorded argument) (RawQuery.fetch (w.answers state).traced argument)
      state (w.after state argument) := by
  unfold RawQuery.fetch Source.of Access.after
  by_cases isInput : argument = inputArgument
  · have read : AlikeTo (Source.input.read w.recorded) (Source.input.read (w.answers state).traced)
        state (w.inputBytes state).2 := (alikeTo_ask _).bind_pure
    rw [if_pos isInput, if_pos isInput, if_pos isInput]
    exact read.bind_pure
  rw [if_neg isInput, if_neg isInput, if_neg isInput, bind_assoc, bind_assoc]
  cases reachable : (w.fileExists argument state).1 with
  | true =>
    refine .ask_bind ?_
    simp only [reachable, if_true, bind_assoc, pure_bind]
    exact .ask_bind (AlikeTo.bind_pure (AlikeTo.bind_pure (alikeTo_ask _)))
  | false =>
    refine .ask_bind ?_
    simp only [reachable]
    cases argument.text? with
    | none => exact alikeTo_pure _
    | some text => exact alikeTo_pure _

lemma runBytes_alike (data : List UInt8) :
    Alike (runBytes f.recorded settings data) (runBytes (f.answers state).traced settings data)
      state := by
  unfold runBytes
  cases decodeText data with
  | error failure => exact alike_pure _
  | ok raw =>
    dsimp only
    cases decodeForm settings.decode raw with
    | error failure => exact alike_pure _
    | ok text =>
      refine (alikeTo_ask _).bind fun result => ?_
      cases result with
      | ok output => exact alike_pure _
      | error rejection => exact alike_pure _

/-- A run reports what it would report, and asks what it would ask, if the answers that it gets were
the only ones there are. -/
theorem run_alike :
    (run w.recorded f.recorded settings argument).recordFrom state =
      (run (w.answers state).traced (f.answers (w.after state argument)).traced settings
        argument).record := by
  refine Alike.recordFrom_eq ((fetch_alikeTo w state argument).bind fun fetched => ?_)
  cases fetched with
  | error failure => exact alike_pure _
  | ok query => exact (runBytes_alike f _ settings query.data).bind_pure

end SparqlFormat
