import Marginalia.Proofs.Layout.RoundTrip
import Marginalia.Proofs.Reports.Located
import Marginalia.Request

/-!
# Reports about requests

A request that fails is answered, and a fault that has a place is answered with a report. The text
of the report is looked up anew, after the fault: `Request.attempt` is the answer where this second
look may fail. It never does, because a fault with a place comes from a text that was found before
(`Request.served`), and the files are the same. So there is an answer to every request, and its
report is about the very text that was read (`Request.respond_total`).
-/

namespace Marginalia

/-! ## Faults of a text -/

/-- Scanning, reading or running the source comes to the fault. -/
inductive Source.Faults (source : Source) : Fault → Prop
  | scan {fault : Fault} : source.scan = .error fault → Source.Faults source fault
  | parse {tokens : List Token} {fault : Fault} : source.scan = .ok tokens →
    Program.parse tokens = .error fault → Source.Faults source fault
  | run {parsed : Parsed} {run : Run} {fault : Fault} : source.run none = .ok (parsed, run) →
    run.fault = some fault → Source.Faults source fault

namespace Source

variable {source : Source} {fault : Fault}

theorem faults_of_parse (stopped : source.parse = .error fault) : source.Faults fault := by
  rcases parseUnder_eq_error_iff.mp stopped with scanned | ⟨tokens, scanned, read⟩
  · exact .scan scanned
  · exact .parse scanned read

end Source

/-! ## Requests -/

namespace Request

variable {files : Files} {method payload : Payload} {source : Source} {fault : Fault} {span : Span}

/-- The payload names the source: by its text, or by a file that can be read. -/
inductive Names (files : Files) (payload : Payload) : Source → Prop
  | inline {text : Payload} {file : String} : payload.given? "source" = some text →
    payload.given? "input_path" = none → Names files payload ⟨text.shown, file⟩
  | file {input : Payload} {text : String} : payload.given? "source" = none →
    payload.given? "input_path" = some input → files (Path.parse input.shown) = .ok text →
    Names files payload ⟨text, (Path.parse input.shown).shown⟩

/-- The source is found that the payload names, or what keeps it from being found has no place. -/
theorem source_cases (files : Files) (payload : Payload) :
    (∃ source, Request.source files payload = .ok source ∧ Names files payload source) ∨
      ∃ fault, Request.source files payload = .error fault ∧ fault.place? = none := by
  unfold Request.source
  split
  next =>
    split
    next => exact .inr ⟨_, rfl, rfl⟩
    next input noText given =>
      cases read : files (Path.parse input.shown) with
      | ok text => exact .inl ⟨_, by simp only [read]; rfl, .file noText given read⟩
      | error cause =>
        simp only [read]
        cases cause <;> exact .inr ⟨_, rfl, rfl⟩
    next text given noFile => exact .inl ⟨_, rfl, .inline given noFile⟩
    next => exact .inr ⟨_, rfl, rfl⟩
  next => exact .inr ⟨_, rfl, rfl⟩

/-- How work on a source may end: with an answer that has no report, with a fault that the source
comes to, or with one that has no place. -/
inductive Worked (source : Source) : Except Fault Document → Prop
  | answer {answer : Document} : answer.member? "report" = none → Worked source (.ok answer)
  | faults {fault : Fault} : source.Faults fault → Worked source (.error fault)
  | unplaced {fault : Fault} : fault.place? = none → Worked source (.error fault)

theorem worked_runSource (source : Source) : Worked source (runSource source) := by
  unfold runSource
  cases ran : source.run none with
  | error fault =>
    exact .faults (Source.faults_of_parse (Source.runInUnder_eq_error_iff.mp ran))
  | ok result =>
    obtain ⟨parsed, run⟩ := result
    simp only [bind, Except.bind]
    cases found : run.fault with
    | none => exact .answer rfl
    | some fault => exact .faults (.run ran found)

theorem worked_explain (source : Source) : Worked source source.explain := by
  unfold Source.explain
  cases read : source.parse with
  | error fault => exact .faults (Source.faults_of_parse read)
  | ok parsed =>
    change Worked source (parsed.program.checkDepth.bind _)
    unfold Program.checkDepth
    split
    · exact .unplaced rfl
    · exact .answer rfl

/-- A source that can be read has a layout, so only its depth can keep it from being written. -/
theorem worked_format (source : Source) :
    Worked source (do return .object [("formatted", .text (← source.format))]) := by
  cases read : source.parse with
  | error fault =>
    rw [Source.format, read]
    exact .faults (Source.faults_of_parse read)
  | ok parsed =>
    obtain ⟨tokens, scanned, derived⟩ := Source.exists_of_parse read
    obtain ⟨text, laidOut, _⟩ := Grammar.exists_layout derived scanned
    rw [Source.format_of_parse read laidOut]
    split
    · exact .unplaced rfl
    · exact .answer rfl

/-- How a request may end: with an answer that has no report, with a fault that the source comes to
which the payload names, or with one that has no place. -/
inductive Served (files : Files) (payload : Payload) : Except Fault Document → Prop
  | answer {answer : Document} : answer.member? "report" = none →
    Served files payload (.ok answer)
  | faults {source : Source} {fault : Fault} : Request.source files payload = .ok source →
    Names files payload source → source.Faults fault → Served files payload (.error fault)
  | unplaced {fault : Fault} : fault.place? = none → Served files payload (.error fault)

theorem Worked.served {result : Except Fault Document} (worked : Worked source result)
    (found : Request.source files payload = .ok source) (names : Names files payload source) :
    Served files payload result := by
  cases worked with
  | answer plain => exact .answer plain
  | faults faults => exact .faults found names faults
  | unplaced none => exact .unplaced none

theorem served_bind {work : Source → Except Fault Document}
    (works : ∀ source, Worked source (work source)) (files : Files) (payload : Payload) :
    Served files payload (Request.source files payload >>= work) := by
  rcases source_cases files payload with ⟨source, found, names⟩ | ⟨fault, found, unplaced⟩
  · have ends := (works source).served found names
    rw [found]
    exact ends
  · rw [found]
    exact .unplaced unplaced

theorem served (files : Files) (method payload : Payload) :
    Served files (payloadOf payload) (serve files method payload) := by
  unfold serve
  split
  · exact served_bind worked_runSource files _
  · exact served_bind worked_explain files _
  · exact served_bind worked_format files _
  · exact .answer rfl
  · exact .unplaced rfl
  · exact .unplaced rfl
  · exact .unplaced rfl

/-- A fault with a place comes from the source that the payload names. -/
theorem exists_source_of_place? (stopped : serve files method payload = .error fault)
    (placed : fault.place? = some span) :
    ∃ source, Request.source files (payloadOf payload) = .ok source ∧
      Names files (payloadOf payload) source ∧ source.Faults fault := by
  have ends := served files method payload
  rw [stopped] at ends
  cases ends with
  | faults found names faults => exact ⟨_, found, names, faults⟩
  | unplaced none =>
    rw [none] at placed
    cases placed

/-! ## Answers -/

/-- The text that a report is cut from, where only the mistakes of a request are caught. -/
def findText (files : Files) (payload : Payload) : Except Fault String :=
  match Request.source files payload with
  | .ok source => .ok source.text
  | .error (.request _) => .ok ""
  | .error fault => .error fault

/-- The answer to a request, where a fault that is met while a report is made comes out. -/
def attempt (files : Files) (method payload : Payload) : Except Fault (Bool × Document) :=
  let payload := payloadOf payload
  match serve files method payload with
  | .ok answer => .ok (true, answer)
  | .error fault =>
    match fault.diagnostic? with
    | none => .ok (false, refusal files payload fault)
    | some diagnostic =>
      match diagnostic.span with
      | none => .ok (false, .object [("error", diagnostic.document)])
      | some _ =>
        match findText files payload with
        | .ok text => .ok (false, .object [("error", diagnostic.document),
            ("report", (diagnostic.report text).document)])
        | .error fault => .error fault

theorem payloadOf_payloadOf (payload : Payload) :
    payloadOf (payloadOf payload) = payloadOf payload := by
  by_cases void : payload.isVoid = true
  · rw [payloadOf, payloadOf, if_pos void]
    rfl
  · have kept : payloadOf payload = payload := if_neg void
    rw [kept, kept]

theorem serve_payloadOf (files : Files) (method payload : Payload) :
    serve files method (payloadOf payload) = serve files method payload := by
  unfold serve
  rw [payloadOf_payloadOf]

/-- A fault without a place is answered without a report. -/
theorem member?_refusal_of_none (files : Files) (payload : Payload)
    (unplaced : fault.place? = none) : (refusal files payload fault).member? "report" = none := by
  unfold refusal
  cases found : fault.diagnostic? with
  | none => rfl
  | some diagnostic =>
    have nowhere : diagnostic.span = none := by
      rw [Fault.place?, found] at unplaced
      exact unplaced
    simp only [nowhere]
    rfl

theorem member?_refusal (payload : Payload)
    (found : Request.source files (payloadOf payload) = .ok source)
    (placed : fault.place? = some span) :
    (refusal files payload fault).member? "report" = some (fault.report source.text).document := by
  obtain ⟨diagnostic, described, here⟩ := Option.bind_eq_some_iff.mp placed
  have text : reportText files payload = source.text := by rw [reportText, found]
  unfold refusal Fault.report
  simp only [described, here, text]
  rfl

/-- An answer that was served has no report. -/
theorem member?_of_serve {answer : Document} (done : serve files method payload = .ok answer) :
    answer.member? "report" = none := by
  have ends := served files method payload
  rw [done] at ends
  cases ends with
  | answer plain => exact plain

/-- Making the report of a fault does not fail. -/
theorem attempt_eq (files : Files) (method payload : Payload) :
    attempt files method payload = .ok (respond files method payload) := by
  unfold attempt respond
  dsimp only
  rw [serve_payloadOf]
  cases served : serve files method payload with
  | ok answer => rfl
  | error fault =>
    unfold refusal
    cases described : fault.diagnostic? with
    | none => simp only [described]
    | some diagnostic =>
      cases here : diagnostic.span with
      | none => simp only [described, here]
      | some span =>
        have placed : fault.place? = some span := by
          rw [Fault.place?, described]
          exact here
        obtain ⟨source, found, _⟩ := exists_source_of_place? served placed
        have text : reportText files payload = source.text := by rw [reportText, found]
        have again : findText files (payloadOf payload) = .ok source.text := by
          rw [findText, found]
        simp only [described, here, text, again]

/-- Every request is answered, with what was served if it was. The answer has a report exactly if
the fault has a place, and then the report is about the source that the payload names, and that was
scanned, read or run when the fault was met. -/
theorem respond_total (files : Files) (method payload : Payload) :
    attempt files method payload = .ok (respond files method payload) ∧
    (∀ answer, respond files method payload = (true, answer) ↔
      serve files method payload = .ok answer) ∧
    (((respond files method payload).2.member? "report").isSome = true ↔
      ∃ fault span, serve files method payload = .error fault ∧ fault.place? = some span) ∧
    ∀ fault span, serve files method payload = .error fault → fault.place? = some span →
      ∃ source, Names files (payloadOf payload) source ∧ source.Faults fault ∧
        (respond files method payload).2.member? "report" =
          some (fault.report source.text).document := by
  have reported : ∀ fault span, serve files method payload = .error fault →
      fault.place? = some span →
      ∃ source, Names files (payloadOf payload) source ∧ source.Faults fault ∧
        (respond files method payload).2.member? "report" =
          some (fault.report source.text).document := by
    intro fault span stopped placed
    obtain ⟨source, found, names, faults⟩ := exists_source_of_place? stopped placed
    refine ⟨source, names, faults, ?_⟩
    rw [respond, stopped]
    exact member?_refusal payload found placed
  refine ⟨attempt_eq files method payload, fun answer => ?_, ⟨fun some => ?_, ?_⟩, reported⟩
  · unfold respond
    cases serve files method payload with
    | ok other => simp
    | error fault => simp
  · unfold respond at some
    cases served : serve files method payload with
    | ok answer =>
      rw [served, member?_of_serve served] at some
      cases some
    | error fault =>
      cases placed : fault.place? with
      | none =>
        rw [served, member?_refusal_of_none files payload placed] at some
        cases some
      | some span => exact ⟨fault, span, rfl, placed⟩
  · rintro ⟨fault, span, stopped, placed⟩
    obtain ⟨source, _, _, report⟩ := reported fault span stopped placed
    rw [report]
    rfl

end Request

end Marginalia
