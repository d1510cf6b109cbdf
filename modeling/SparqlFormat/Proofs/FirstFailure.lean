import SparqlFormat.Proofs.FormFaults
import SparqlFormat.Proofs.Progress
import SparqlFormat.Proofs.Requests
import SparqlFormat.Proofs.Surroundings

/-!
# A run reports the first stage that fails

`Ends` has one rule for each way a run can end: the bytes are lacking, they are no text, the form
encoding cannot be undone, the formatter rejects the text, or it gives one. Each rule says what is
reported and which requests are made, and a traced run ends by the one rule that applies
(`record_eq_iff`).

Undoing the form encoding is told in the stages of `FormEncoding.decodeInStages`, over the code
points of the text, and not in the single pass that a run takes (`decodeForm_eq_error`).
-/

namespace SparqlFormat

open FormEncoding

/-! ## Form encoding undone -/

/-- The text that goes on to the formatter: the one that was read, or what its form encoding stands
for if that is to be undone. -/
def Decodes (enabled : Bool) (raw text : List Char) : Prop :=
  if enabled then decodeInStages (raw.map .char) = .ok text else text = raw

section Decoding

variable {enabled : Bool} {raw text : List Char}

lemma decodes_iff : Decodes enabled raw text ↔ decodeForm enabled raw = .ok text := by
  cases enabled with
  | false => simp [Decodes, decodeForm, eq_comm]
  | true =>
    rw [Decodes, if_pos rfl, ← decode_ofText, decodeForm, if_pos rfl]
    cases decode (.ofText raw) <;> simp [Except.mapError]

lemma decodeForm_eq_error {cause : Failure} :
    decodeForm enabled raw = .error cause ↔ enabled = true ∧ ∃ fault,
      decodeInStages (raw.map .char) = .error (.ofFault fault) ∧ cause = .undecodable fault := by
  cases enabled with
  | false => simp [decodeForm]
  | true =>
    rw [← decode_ofText, decodeForm, if_pos rfl]
    cases decode (.ofText raw) with
    | ok text => simp [Except.mapError]
    | error fault =>
      simp only [Except.mapError, Except.error.injEq, true_and]
      constructor
      · rintro rfl
        exact ⟨fault, rfl, rfl⟩
      · rintro ⟨fault', same, rfl⟩
        rw [ofFault_inj same]

lemma exists_fault {fault : TextFault} (h : decodeInStages (raw.map .char) = .error fault) :
    ∃ single, fault = .ofFault single := by
  rw [← decode_ofText] at h
  cases decoded : decode (.ofText raw) with
  | ok text =>
    rw [decoded] at h
    cases h
  | error single =>
    rw [decoded] at h
    exact ⟨single, (Except.error.inj h).symm⟩

end Decoding

/-! ## How a run can end -/

/-- The bytes that a source of an argument holds are this text. -/
def Access.Delivers (a : Access Id) (argument : Argument) (source : Source) (raw : List Char) :
    Prop :=
  ∃ data, a.Resolves argument source ∧ a.Provides source data ∧ Utf8.decode data = .ok raw

/-- This text, with its form encoding undone if that is asked for, goes to the formatter. -/
def Access.Submits (a : Access Id) (settings : Settings) (argument : Argument) (source : Source)
    (text : List Char) : Prop :=
  ∃ raw, a.Delivers argument source raw ∧ Decodes settings.decode raw text

/-- The report of a run and the requests it makes, by the first stage that fails. -/
inductive Ends (a : Access Id) (f : Formatter Id) (settings : Settings) (argument : Argument) :
    Report → List Request → Prop
  | lacking {cause : Failure} : a.Lacks argument cause →
      Ends a f settings argument ⟨.failure .resolve cause, none⟩ (lookups a argument)
  | illFormed {source : Source} {data : List UInt8} {error : Utf8.DecodeError} :
      a.Resolves argument source → a.Provides source data → Utf8.decode data = .error error →
      Ends a f settings argument ⟨.failure .resolve (.illFormed error), source.baseUri?⟩
        (lookups a argument)
  | undecodable {source : Source} {raw : List Char} {fault : Fault} :
      a.Delivers argument source raw → settings.decode = true →
      decodeInStages (raw.map .char) = .error (.ofFault fault) →
      Ends a f settings argument ⟨.failure .decode (.undecodable fault), source.baseUri?⟩
        (lookups a argument)
  | rejected {source : Source} {text : List Char} {rejection : Rejection} :
      a.Submits settings argument source text → (f settings.mode text).run = .error rejection →
      Ends a f settings argument ⟨.failure .reformat (.rejected rejection), source.baseUri?⟩
        (lookups a argument ++ [.reformat settings.mode text])
  | output {source : Source} {text out : List Char} :
      a.Submits settings argument source text → (f settings.mode text).run = .ok out →
      Ends a f settings argument ⟨.output out, source.baseUri?⟩
        (lookups a argument ++ [.reformat settings.mode text])

section Bytes

variable {f : Formatter Id} {settings : Settings} {data : List UInt8} {raw text : List Char}

lemma runBytes_makes_illFormed {error : Utf8.DecodeError} (h : Utf8.decode data = .error error) :
    (runBytes f.traced settings data).Makes [] (.failure .resolve (.illFormed error)) := by
  rw [runBytes, decodeText, h]
  exact Trace.makes_pure _

lemma runBytes_makes_undecodable {cause : Failure} (h : Utf8.decode data = .ok raw)
    (decoded : decodeForm settings.decode raw = .error cause) :
    (runBytes f.traced settings data).Makes [] (.failure .decode cause) := by
  simp only [runBytes, decodeText, h, Except.mapError, decoded]
  exact Trace.makes_pure _

lemma runBytes_makes_rejected {rejection : Rejection} (h : Utf8.decode data = .ok raw)
    (decoded : decodeForm settings.decode raw = .ok text)
    (rejected : (f settings.mode text).run = .error rejection) :
    (runBytes f.traced settings data).Makes [.reformat settings.mode text]
      (.failure .reformat (.rejected rejection)) := by
  simp only [runBytes, decodeText, h, Except.mapError, decoded]
  exact (Trace.makes_answer rejected _).bind (Trace.makes_pure _)

lemma runBytes_makes_output {out : List Char} (h : Utf8.decode data = .ok raw)
    (decoded : decodeForm settings.decode raw = .ok text)
    (output : (f settings.mode text).run = .ok out) :
    (runBytes f.traced settings data).Makes [.reformat settings.mode text] (.output out) := by
  simp only [runBytes, decodeText, h, Except.mapError, decoded]
  exact (Trace.makes_answer output _).bind (Trace.makes_pure _)

lemma record_runBytes_of_decoded (h : Utf8.decode data = .ok raw)
    (decoded : decodeForm settings.decode raw = .ok text) :
    (runBytes f.traced settings data).record.2 = [.reformat settings.mode text] := by
  cases result : (f settings.mode text).run with
  | error rejection =>
    rw [(runBytes_makes_rejected h decoded result).record_eq]
  | ok out =>
    rw [(runBytes_makes_output h decoded result).record_eq]

end Bytes

section Run

variable {a : Access Id} {f : Formatter Id} {settings : Settings} {argument : Argument}

/-- Once the bytes are there, a run goes on with them. -/
lemma run_makes_of_runBytes {source : Source} {data : List UInt8} {requests : List Request}
    {ending : Ending} (resolved : a.Resolves argument source) (provided : a.Provides source data)
    (h : (runBytes f.traced settings data).Makes requests ending) :
    (run a.traced f.traced settings argument).Makes (lookups a argument ++ requests)
      ⟨ending, source.baseUri?⟩ :=
  (fetch_makes resolved provided).bind h.bind_pure

/-- A run ends by every rule that applies. -/
lemma run_makes {report : Report} {requests : List Request}
    (h : Ends a f settings argument report requests) :
    (run a.traced f.traced settings argument).Makes requests report := by
  cases h with
  | lacking lacking =>
    rw [← List.append_nil (lookups a argument)]
    exact (fetch_makes_error lacking).bind (Trace.makes_pure _)
  | illFormed resolved provided utf8 =>
    rw [← List.append_nil (lookups a argument)]
    exact run_makes_of_runBytes resolved provided (runBytes_makes_illFormed utf8)
  | undecodable delivered enabled failed =>
    obtain ⟨data, resolved, provided, utf8⟩ := delivered
    rw [← List.append_nil (lookups a argument)]
    have decoded := decodeForm_eq_error.2 ⟨enabled, _, failed, rfl⟩
    exact run_makes_of_runBytes resolved provided (runBytes_makes_undecodable utf8 decoded)
  | rejected submitted rejected =>
    obtain ⟨raw, ⟨data, resolved, provided, utf8⟩, decodes⟩ := submitted
    have decoded := decodes_iff.1 decodes
    exact run_makes_of_runBytes resolved provided (runBytes_makes_rejected utf8 decoded rejected)
  | output submitted output =>
    obtain ⟨raw, ⟨data, resolved, provided, utf8⟩, decodes⟩ := submitted
    have decoded := decodes_iff.1 decodes
    exact run_makes_of_runBytes resolved provided (runBytes_makes_output utf8 decoded output)

/-- Some rule applies once the bytes are there, and reports the URI of their source. -/
lemma exists_ends_of_provides (f : Formatter Id) (settings : Settings) {source : Source}
    {data : List UInt8} (resolved : a.Resolves argument source)
    (provided : a.Provides source data) :
    ∃ ending requests, Ends a f settings argument ⟨ending, source.baseUri?⟩ requests := by
  cases utf8 : Utf8.decode data with
  | error error => exact ⟨_, _, .illFormed resolved provided utf8⟩
  | ok raw =>
    have delivered : a.Delivers argument source raw := ⟨data, resolved, provided, utf8⟩
    cases decoded : decodeForm settings.decode raw with
    | error cause =>
      obtain ⟨enabled, fault, failed, rfl⟩ := decodeForm_eq_error.1 decoded
      exact ⟨_, _, .undecodable delivered enabled failed⟩
    | ok text =>
      have submitted : a.Submits settings argument source text :=
        ⟨raw, delivered, decodes_iff.2 decoded⟩
      cases result : (f settings.mode text).run with
      | error rejection => exact ⟨_, _, .rejected submitted result⟩
      | ok out => exact ⟨_, _, .output submitted result⟩

lemma exists_ends (a : Access Id) (f : Formatter Id) (settings : Settings) (argument : Argument) :
    ∃ report requests, Ends a f settings argument report requests := by
  rcases fetches_or_lacks a argument with ⟨source, data, resolved, provided⟩ | ⟨cause, lacking⟩
  · obtain ⟨ending, requests, ends⟩ := exists_ends_of_provides f settings resolved provided
    exact ⟨_, requests, ends⟩
  · exact ⟨_, _, .lacking lacking⟩

/-- The rules determine a run: its report and its requests are those of the rule that applies. -/
theorem record_eq_iff {report : Report} {requests : List Request} :
    (run a.traced f.traced settings argument).record = (report, requests) ↔
      Ends a f settings argument report requests := by
  constructor
  · intro recorded
    obtain ⟨report', requests', ends⟩ := exists_ends a f settings argument
    rw [(run_makes ends).record_eq, Prod.mk.injEq] at recorded
    obtain ⟨rfl, rfl⟩ := recorded
    exact ends
  · intro ends
    exact (run_makes ends).record_eq

lemma Ends.unique {report report' : Report} {requests requests' : List Request}
    (h : Ends a f settings argument report requests)
    (h' : Ends a f settings argument report' requests') : report = report' ∧ requests = requests' :=
  Prod.mk.inj ((record_eq_iff.2 h).symm.trans (record_eq_iff.2 h'))

end Run

/-! ## What is reported -/

/-- Whether a request is to the files. -/
def Request.toFiles : Request → Bool
  | .fileExists _ | .baseUri _ | .fileBytes _ => true
  | .inputBytes | .reformat _ _ => false

/-- What the report of a run says in these surroundings, and which requests the run makes. -/
structure ReportsFirstFailure (a : Access Id) (f : Formatter Id) (settings : Settings)
    (argument : Argument) (report : Report) (requests : List Request) : Prop where
  /-- Report and requests are those of the rule that applies. -/
  ends : Ends a f settings argument report requests
  /-- There is a text or an error, and not both. -/
  output_or_error : report.ending.output?.isSome = !report.ending.error?.isSome
  /-- A stage is named exactly if there is an error. -/
  stage_with_error : report.ending.stage?.isSome = report.ending.error?.isSome
  /-- The first stage fails if the argument stands for nothing, if its source cannot be read, or if
  what is read is not UTF-8. -/
  resolve_iff : report.ending.stage? = some .resolve ↔
    (∃ cause, a.Lacks argument cause) ∨
      ∃ source data error, a.Resolves argument source ∧ a.Provides source data ∧
        Utf8.decode data = .error error
  /-- The second stage fails if form encoding is to be undone and a stage of that fails. -/
  decode_iff : report.ending.stage? = some .decode ↔ settings.decode = true ∧
    ∃ source raw fault, a.Delivers argument source raw ∧
      decodeInStages (raw.map .char) = .error fault
  /-- The fault of that stage is reported. -/
  decode_message : settings.decode = true → ∀ source raw fault, a.Delivers argument source raw →
    decodeInStages (raw.map .char) = .error fault →
      report.ending.error? =
        some ("Failed to URL percent decode SPARQL query: " ++ fault.message)
  /-- The third stage fails if the formatter does. -/
  reformat_iff : report.ending.stage? = some .reformat ↔
    ∃ source text rejection, a.Submits settings argument source text ∧
      (f settings.mode text).run = .error rejection
  /-- The formatter is asked once if all stages before it succeed, with the text they give and the
  mode selected. -/
  submitted : ∀ source text, a.Submits settings argument source text →
    requests = lookups a argument ++ [.reformat settings.mode text]
  /-- Otherwise it is not asked at all. -/
  notSubmitted : (∀ source text, ¬ a.Submits settings argument source text) →
    requests = lookups a argument
  /-- Standard input is read without a look at the files. -/
  input : argument = inputArgument → requests.filter Request.toFiles = []
  /-- Every other argument is taken for the name of a file once, and only if it is one, its URI is
  asked for, and then its bytes. -/
  files : argument ≠ inputArgument → requests.filter Request.toFiles =
    .fileExists argument ::
      if (a.fileExists argument).run then [.baseUri argument, .fileBytes argument] else []
  /-- The URI is reported if the argument is a file that was read, whatever fails later. -/
  baseUri_iff : ∀ uri, report.baseUri = some uri ↔
    ∃ data, a.Resolves argument (.file argument uri) ∧ a.Provides (.file argument uri) data
  /-- An argument that is a text, and neither the hyphen nor the name of a file, is itself the text
  that goes to the later stages. -/
  literal : ∀ text, argument = .ofText text → argument ≠ inputArgument →
    (a.fileExists argument).run = false → ∀ source raw, a.Delivers argument source raw ↔
      source = .literal text ∧ raw = text

section Report

variable {a : Access Id} {f : Formatter Id} {settings : Settings} {argument : Argument}
  {report : Report} {requests : List Request}

lemma Ends.resolve_iff (h : Ends a f settings argument report requests) :
    report.ending.stage? = some .resolve ↔
      (∃ cause, a.Lacks argument cause) ∨
        ∃ source data error, a.Resolves argument source ∧ a.Provides source data ∧
          Utf8.decode data = .error error := by
  constructor
  · intro failed
    cases h with
    | lacking lacking => exact .inl ⟨_, lacking⟩
    | illFormed resolved provided utf8 => exact .inr ⟨_, _, _, resolved, provided, utf8⟩
    | _ => simp [Ending.stage?] at failed
  · rintro (⟨cause, lacking⟩ | ⟨source, data, error, resolved, provided, utf8⟩)
    · obtain ⟨rfl, -⟩ := h.unique (.lacking lacking)
      rfl
    · obtain ⟨rfl, -⟩ := h.unique (.illFormed resolved provided utf8)
      rfl

lemma Ends.decode_iff (h : Ends a f settings argument report requests) :
    report.ending.stage? = some .decode ↔ settings.decode = true ∧
      ∃ source raw fault, a.Delivers argument source raw ∧
        decodeInStages (raw.map .char) = .error fault := by
  constructor
  · intro failed
    cases h with
    | undecodable delivered enabled faulty => exact ⟨enabled, _, _, _, delivered, faulty⟩
    | _ => simp [Ending.stage?] at failed
  · rintro ⟨enabled, source, raw, fault, delivered, failed⟩
    obtain ⟨single, rfl⟩ := exists_fault failed
    obtain ⟨rfl, -⟩ := h.unique (.undecodable delivered enabled failed)
    rfl

lemma Ends.decode_message (h : Ends a f settings argument report requests)
    (enabled : settings.decode = true) {source : Source} {raw : List Char} {fault : TextFault}
    (delivered : a.Delivers argument source raw)
    (failed : decodeInStages (raw.map .char) = .error fault) :
    report.ending.error? =
      some ("Failed to URL percent decode SPARQL query: " ++ fault.message) := by
  obtain ⟨single, rfl⟩ := exists_fault failed
  obtain ⟨rfl, -⟩ := h.unique (.undecodable delivered enabled failed)
  rw [message_ofFault]
  rfl

lemma Ends.reformat_iff (h : Ends a f settings argument report requests) :
    report.ending.stage? = some .reformat ↔
      ∃ source text rejection, a.Submits settings argument source text ∧
        (f settings.mode text).run = .error rejection := by
  constructor
  · intro failed
    cases h with
    | rejected submitted rejected => exact ⟨_, _, _, submitted, rejected⟩
    | _ => simp [Ending.stage?] at failed
  · rintro ⟨source, text, rejection, submitted, rejected⟩
    obtain ⟨rfl, -⟩ := h.unique (.rejected submitted rejected)
    rfl

lemma Ends.requests_of_submits (h : Ends a f settings argument report requests) {source : Source}
    {text : List Char} (submitted : a.Submits settings argument source text) :
    requests = lookups a argument ++ [.reformat settings.mode text] := by
  cases result : (f settings.mode text).run with
  | error rejection => exact (h.unique (.rejected submitted result)).2
  | ok out => exact (h.unique (.output submitted result)).2

lemma Ends.requests_of_not_submits (h : Ends a f settings argument report requests)
    (notSubmitted : ∀ source text, ¬ a.Submits settings argument source text) :
    requests = lookups a argument := by
  cases h with
  | lacking => rfl
  | illFormed => rfl
  | undecodable => rfl
  | rejected submitted => exact absurd submitted (notSubmitted _ _)
  | output submitted => exact absurd submitted (notSubmitted _ _)

lemma Ends.filter_requests (h : Ends a f settings argument report requests) :
    requests.filter Request.toFiles = (lookups a argument).filter Request.toFiles := by
  cases h with
  | lacking => rfl
  | illFormed => rfl
  | undecodable => rfl
  | rejected => simp [Request.toFiles]
  | output => simp [Request.toFiles]

lemma filter_lookups_input (a : Access Id) :
    (lookups a inputArgument).filter Request.toFiles = [] := by
  simp [lookups, Request.toFiles]

lemma filter_lookups (notInput : argument ≠ inputArgument) :
    (lookups a argument).filter Request.toFiles = .fileExists argument ::
      if (a.fileExists argument).run then [.baseUri argument, .fileBytes argument] else [] := by
  rw [lookups, if_neg notInput]
  split
  · rfl
  · rfl

/-- Only a file has a URI, and it is the one that the files give it. -/
lemma Access.Resolves.file_of_baseUri? {source : Source} {uri : List Char}
    (resolved : a.Resolves argument source) (named : source.baseUri? = some uri) :
    source = .file argument uri := by
  cases resolved with
  | input => simp [Source.baseUri?] at named
  | file =>
    obtain rfl := Option.some.inj named
    rfl
  | literal => simp [Source.baseUri?] at named

lemma Ends.baseUri_iff (h : Ends a f settings argument report requests) (uri : List Char) :
    report.baseUri = some uri ↔
      ∃ data, a.Resolves argument (.file argument uri) ∧
        a.Provides (.file argument uri) data := by
  constructor
  · intro named
    -- in every rule but the first, the URI is that of a source whose bytes are there
    suffices ∃ source data, a.Resolves argument source ∧ a.Provides source data ∧
        report.baseUri = source.baseUri? by
      obtain ⟨source, data, resolved, provided, same⟩ := this
      obtain rfl := resolved.file_of_baseUri? (same.symm.trans named)
      exact ⟨data, resolved, provided⟩
    cases h with
    | lacking => simp at named
    | illFormed resolved provided => exact ⟨_, _, resolved, provided, rfl⟩
    | undecodable delivered =>
      obtain ⟨data, resolved, provided, -⟩ := delivered
      exact ⟨_, data, resolved, provided, rfl⟩
    | rejected submitted =>
      obtain ⟨raw, ⟨data, resolved, provided, -⟩, -⟩ := submitted
      exact ⟨_, data, resolved, provided, rfl⟩
    | output submitted =>
      obtain ⟨raw, ⟨data, resolved, provided, -⟩, -⟩ := submitted
      exact ⟨_, data, resolved, provided, rfl⟩
  · rintro ⟨data, resolved, provided⟩
    obtain ⟨ending, requests', ends⟩ := exists_ends_of_provides f settings resolved provided
    obtain ⟨rfl, -⟩ := h.unique ends
    rfl

/-- An argument that is no file is its own text: written as bytes and read back, it is the same. -/
lemma delivers_literal_iff {text : List Char} (isText : argument = .ofText text)
    (notInput : argument ≠ inputArgument) (absent : (a.fileExists argument).run = false)
    (source : Source) (raw : List Char) :
    a.Delivers argument source raw ↔ source = .literal text ∧ raw = text := by
  constructor
  · rintro ⟨data, resolved, provided, utf8⟩
    cases resolved with
    | input isInput => exact absurd isInput notInput
    | file _ reachable => simp [absent] at reachable
    | @literal text' _ _ isText' =>
      have same : text' = text := by
        have read := congrArg Argument.text? (isText'.symm.trans isText)
        simpa using read
      subst same
      cases provided with
      | literal =>
        rw [Utf8.decode_encode] at utf8
        obtain rfl := Except.ok.inj utf8
        exact ⟨rfl, rfl⟩
  · rintro ⟨rfl, rfl⟩
    exact ⟨_, .literal notInput absent isText, .literal, Utf8.decode_encode _⟩

lemma Ends.reportsFirstFailure (h : Ends a f settings argument report requests) :
    ReportsFirstFailure a f settings argument report requests where
  ends := h
  output_or_error := by cases report.ending <;> rfl
  stage_with_error := by cases report.ending <;> rfl
  resolve_iff := h.resolve_iff
  decode_iff := h.decode_iff
  decode_message enabled _ _ _ := h.decode_message enabled
  reformat_iff := h.reformat_iff
  submitted _ _ := h.requests_of_submits
  notSubmitted := h.requests_of_not_submits
  input isInput := by rw [h.filter_requests, isInput, filter_lookups_input]
  files notInput := by rw [h.filter_requests, filter_lookups notInput]
  baseUri_iff := h.baseUri_iff
  literal _ isText notInput absent := delivers_literal_iff isText notInput absent

end Report

/-- Every run, whatever its argument, its settings, its surroundings and its formatter, reports the
first stage that fails, and so does the run that reports from memory, with the same requests. Files,
standard input and the formatter may have a state: what counts is what they answer in that run. -/
theorem run_reports_first_failure (settings : Settings) (argument : Argument) :
    (∀ (a : Access Id) (f : Formatter Id),
      ReportsFirstFailure a f settings argument
        (run a.traced f.traced settings argument).record.1
        (run a.traced f.traced settings argument).record.2 ∧
      stagedRun a.traced f.traced settings argument =
        run a.traced f.traced settings argument) ∧
    ∀ (σ : Type) (w : Access (StateM σ)) (f : Formatter (StateM σ)) (state : σ),
      ReportsFirstFailure (w.answers state) (f.answers (w.after state argument)) settings argument
        ((run w.recorded f.recorded settings argument).recordFrom state).1
        ((run w.recorded f.recorded settings argument).recordFrom state).2 ∧
      stagedRun w.recorded f.recorded settings argument =
        run w.recorded f.recorded settings argument := by
  constructor
  · intro a f
    exact ⟨(record_eq_iff.1 rfl).reportsFirstFailure, stagedRun_eq _ _ _ _⟩
  · intro σ w f state
    rw [run_alike]
    exact ⟨(record_eq_iff.1 rfl).reportsFirstFailure, stagedRun_eq _ _ _ _⟩

end SparqlFormat
