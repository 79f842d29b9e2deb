import DeclOrder.Proofs.Json.Decoding
import DeclOrder.Proofs.Timestamp
import DeclOrder.Report.Decoding
import DeclOrder.Report.Encoding
import DeclOrder.View.Annotation
import DeclOrder.View.Markdown

/-! A stored report is the report that was stored. -/
namespace DeclOrder

structure Location.Fits (l : Location) : Prop where
  line : ∀ n ∈ l.line, isWord 32 n
  column : ∀ n ∈ l.column, isWord 32 n
  endLine : ∀ n ∈ l.endLine, isWord 32 n
  endColumn : ∀ n ∈ l.endColumn, isWord 32 n

structure Summary.Fits (s : Summary) : Prop where
  filesScanned : isWord 32 s.filesScanned
  blocksScanned : isWord 32 s.blocksScanned
  findingsTotal : isWord 32 s.findingsTotal
  findingsEmitted : isWord 32 s.findingsEmitted

/-- Data that is held as maps and 64-bit numbers, none of them floating, at most 100 levels deep. -/
structure Json.Plain (data : Json) : Prop where
  exact : data.isExact
  ordered : data.isOrdered
  shallow : data.depth ≤ 100

namespace Report
open Json Json.Decoder

theorem wordOk {n : Nat} (fits : isWord 32 n) : word (settled (.ofNat n)) = .ok n := by
  have kept : settled (.ofNat n) = .integer n := rfl
  rw [kept, word, if_pos fits]
  rfl

theorem optionalFilled {α : Type} (name : String) (encode : α → Json) (o : Option α) (rest : List (String × Option Json)) :
    filled ((name, o.map encode) :: rest) = optional name encode o ++ filled rest := by
  cases o <;> rfl

theorem setFilled (name : String) (value : Json) (rest : List (String × Option Json)) :
    filled ((name, some value) :: rest) = (name, value) :: filled rest := rfl

theorem wordsOk {o : Option Nat} (fits : ∀ n ∈ o, isWord 32 n) : Holds (nullable word) (some none) o (o.map ofNat) :=
  holdsOptional nofun fun n some => wordOk (fits n some)

theorem stringsOk (o : Option String) : Holds (nullable string) (some none) o (o.map .string) :=
  holdsOptional nofun fun _ _ => rfl

theorem listHolds {α : Type} {decode : Decoder α} {encode : α → Json} {l : List α}
    (each : ∀ a ∈ l, decode (settled (encode a)) = .ok a) : Holds (list decode) none l (some (.array (l.map encode))) :=
  listOk each

theorem wordsWritable (d : Nat) {o : Option Nat} (fits : ∀ n ∈ o, isWord 32 n) : ∀ v ∈ o.map ofNat, Writable d v :=
  optionalWritable fun n some => wordWritable d (fits n some)

theorem stringsWritable (d : Nat) (o : Option String) : ∀ v ∈ o.map Json.string, Writable d v :=
  optionalWritable fun text _ => stringWritable d text

/-! Locations. -/

theorem encodeLocationFilled (l : Location) : encodeLocation l = .object (filled [("path", some (.string l.path.text)),
    ("line", l.line.map ofNat), ("col", l.column.map ofNat), ("end_line", l.endLine.map ofNat),
    ("end_col", l.endColumn.map ofNat)]) := by
  simp only [encodeLocation, setFilled, optionalFilled, List.append_assoc, List.cons_append, List.nil_append]
  simp [filled]

theorem locationOk {l : Location} (fits : l.Fits) : Decode.location (settled (encodeLocation l)) = .ok l := by
  have path : Holds Decode.path none l.path (some (.string l.path.text)) := rfl
  have line := wordsOk fits.line
  have column := wordsOk fits.column
  have endLine := wordsOk fits.endLine
  have endColumn := wordsOk fits.endColumn
  rw [encodeLocationFilled]
  refine recordOk (by decide) (.cons path.passes <| .cons (line.passesFree nofun) <| .cons (column.passesFree nofun) <|
    .cons (endLine.passesFree nofun) <| .cons (endColumn.passesFree nofun) .nil) fun f same => ?_
  simp only [List.forall_mem_cons] at same
  obtain ⟨atPath, atLine, atColumn, atEndLine, atEndColumn, _⟩ := same
  rw [path.get atPath, line.get? atLine, column.get? atColumn, endLine.get? atEndLine, endColumn.get? atEndColumn]
  rfl

theorem locationWritable {l : Location} (fits : l.Fits) : Writable 1 (encodeLocation l) := by
  rw [encodeLocationFilled]
  refine filledWritable ?_
  simp only [List.forall_mem_cons]
  exact ⟨setWritable (stringWritable 0 _), wordsWritable 0 fits.line, wordsWritable 0 fits.column,
    wordsWritable 0 fits.endLine, wordsWritable 0 fits.endColumn, List.forall_mem_nil _⟩

/-! Findings. -/

theorem encodeFindingFilled (f : Finding) : encodeFinding f = .object (filled [("severity", some (.string f.severity.text)),
    ("check_id", some (.string f.checkId)), ("code", some (.string f.code)), ("message", some (.string f.message)),
    ("location", f.location.map encodeLocation), ("help", f.help.map .string), ("url", f.url.map .string),
    ("fingerprint", f.fingerprint.map .string), ("data", if f.data.isNull then none else some f.data)]) := by
  simp only [encodeFinding, setFilled, optionalFilled, List.append_assoc, List.cons_append, List.nil_append]
  split <;> rfl

theorem severityOk (s : Severity) : Decode.severity (settled (.string s.text)) = .ok s := by
  cases s <;> rfl

theorem dataHolds {data : Json} (ordered : data.isOrdered) :
    Holds any (some .null) data (if data.isNull then none else some data) := by
  have set (found : data.isNull = false) : Holds any (some .null) data (if data.isNull then none else some data) := by
    rw [found]
    exact congrArg Except.ok (settledOrdered data ordered)
  cases data with
  | null => rfl
  | _ => exact set rfl

theorem findingOk {f : Finding} (places : ∀ l ∈ f.location, l.Fits) (data : f.data.isOrdered) :
    Decode.finding (settled (encodeFinding f)) = .ok f := by
  have severity : Holds Decode.severity none f.severity (some (.string f.severity.text)) := severityOk f.severity
  have checkId : Holds string none f.checkId (some (.string f.checkId)) := rfl
  have code : Holds string none f.code (some (.string f.code)) := rfl
  have message : Holds string none f.message (some (.string f.message)) := rfl
  have location : Holds (nullable Decode.location) (some none) f.location (f.location.map encodeLocation) :=
    holdsOptional nofun fun l some => locationOk (places l some)
  have help := stringsOk f.help
  have url := stringsOk f.url
  have fingerprint := stringsOk f.fingerprint
  have payload := dataHolds data
  rw [encodeFindingFilled]
  refine recordOk (by decide) (.cons severity.passes <| .cons checkId.passes <| .cons code.passes <| .cons message.passes <|
    .cons (location.passesFree nofun) <| .cons (help.passesFree nofun) <| .cons (url.passesFree nofun) <|
    .cons (fingerprint.passesFree nofun) <| .cons (payload.passesFree nofun) .nil) fun found same => ?_
  simp only [List.forall_mem_cons] at same
  obtain ⟨atSeverity, atCheckId, atCode, atMessage, atLocation, atHelp, atUrl, atFingerprint, atData, _⟩ := same
  rw [severity.get atSeverity, checkId.get atCheckId, code.get atCode, message.get atMessage, location.get? atLocation,
    help.get? atHelp, url.get? atUrl, fingerprint.get? atFingerprint, payload.getD atData]
  rfl

theorem findingWritable {f : Finding} (places : ∀ l ∈ f.location, l.Fits) {d : Nat} (data : Writable (d + 1) f.data) :
    Writable (d + 2) (encodeFinding f) := by
  rw [encodeFindingFilled]
  refine filledWritable ?_
  simp only [List.forall_mem_cons]
  refine ⟨setWritable (stringWritable _ _), setWritable (stringWritable _ _), setWritable (stringWritable _ _),
    setWritable (stringWritable _ _), optionalWritable fun l some => (locationWritable (places l some)).weaken (by omega),
    stringsWritable _ _, stringsWritable _ _, stringsWritable _ _, ?_, List.forall_mem_nil _⟩
  split
  · exact nofun
  · exact setWritable data

/-! Summaries. -/

theorem encodeToolErrorFilled (e : ToolError) : encodeToolError e = .object (filled [("rule", some (.string e.rule)),
    ("path", e.path.map (fun p => .string p.text)), ("message", some (.string e.message))]) := by
  simp only [encodeToolError, setFilled, optionalFilled, List.cons_append, List.nil_append]
  rfl

theorem toolErrorOk (e : ToolError) : Decode.toolError (settled (encodeToolError e)) = .ok e := by
  have rule : Holds string none e.rule (some (.string e.rule)) := rfl
  have path : Holds (nullable Decode.path) (some none) e.path (e.path.map fun p => .string p.text) :=
    holdsOptional nofun fun _ _ => rfl
  have message : Holds string none e.message (some (.string e.message)) := rfl
  rw [encodeToolErrorFilled]
  refine recordOk (by decide) (.cons rule.passes <| .cons (path.passesFree nofun) <| .cons message.passes .nil) fun f same => ?_
  simp only [List.forall_mem_cons] at same
  obtain ⟨atRule, atPath, atMessage, _⟩ := same
  rw [rule.get atRule, path.get? atPath, message.get atMessage]
  rfl

theorem toolErrorWritable (e : ToolError) : Writable 1 (encodeToolError e) := by
  rw [encodeToolErrorFilled]
  refine filledWritable ?_
  simp only [List.forall_mem_cons]
  exact ⟨setWritable (stringWritable 0 _), optionalWritable fun _ _ => stringWritable 0 _,
    setWritable (stringWritable 0 _), List.forall_mem_nil _⟩

theorem encodeSummaryFilled (s : Summary) : encodeSummary s = .object (filled [("profile", some (.string s.profile)),
    ("files_scanned", some (.ofNat s.filesScanned)), ("blocks_scanned", some (.ofNat s.blocksScanned)),
    ("rules_run", some (.strings s.rulesRun)), ("findings_total", some (.ofNat s.findingsTotal)),
    ("findings_emitted", some (.ofNat s.findingsEmitted)), ("truncated_reason", s.truncatedReason.map .string),
    ("errors", if s.errors.isEmpty then none else some (.array (s.errors.map encodeToolError)))]) := by
  simp only [encodeSummary, setFilled, optionalFilled, List.cons_append, List.nil_append]
  split <;> rfl

theorem errorsHolds (errors : List ToolError) : Holds (list Decode.toolError) (some []) errors
    (if errors.isEmpty then none else some (.array (errors.map encodeToolError))) := by
  cases errors with
  | nil => rfl
  | cons e rest => exact listOk fun e _ => toolErrorOk e

theorem summaryOk {s : Summary} (fits : s.Fits) : Decode.summary (settled (encodeSummary s)) = .ok s := by
  have profile : Holds string none s.profile (some (.string s.profile)) := rfl
  have files : Holds word none s.filesScanned (some (.ofNat s.filesScanned)) := wordOk fits.filesScanned
  have blocks : Holds word none s.blocksScanned (some (.ofNat s.blocksScanned)) := wordOk fits.blocksScanned
  have rules : Holds (list string) none s.rulesRun (some (.strings s.rulesRun)) := listHolds fun _ _ => rfl
  have total : Holds word none s.findingsTotal (some (.ofNat s.findingsTotal)) := wordOk fits.findingsTotal
  have emitted : Holds word none s.findingsEmitted (some (.ofNat s.findingsEmitted)) := wordOk fits.findingsEmitted
  have reason := stringsOk s.truncatedReason
  have errors := errorsHolds s.errors
  rw [encodeSummaryFilled]
  refine recordOk (by decide) (.cons profile.passes <| .cons files.passes <| .cons blocks.passes <| .cons rules.passes <|
    .cons total.passes <| .cons emitted.passes <| .cons (reason.passesFree nofun) <| .cons (errors.passesFree nofun) .nil)
    fun f same => ?_
  simp only [List.forall_mem_cons] at same
  obtain ⟨atProfile, atFiles, atBlocks, atRules, atTotal, atEmitted, atReason, atErrors, _⟩ := same
  rw [profile.get atProfile, files.get atFiles, blocks.get atBlocks, rules.get atRules, total.get atTotal,
    emitted.get atEmitted, reason.get? atReason, errors.getD atErrors]
  rfl

theorem summaryWritable {s : Summary} (fits : s.Fits) : Writable 3 (encodeSummary s) := by
  rw [encodeSummaryFilled]
  refine filledWritable ?_
  simp only [List.forall_mem_cons]
  refine ⟨setWritable (stringWritable _ _), setWritable (wordWritable _ fits.filesScanned),
    setWritable (wordWritable _ fits.blocksScanned), setWritable (arrayWritable fun _ _ => stringWritable _ _),
    setWritable (wordWritable _ fits.findingsTotal), setWritable (wordWritable _ fits.findingsEmitted),
    stringsWritable _ _, ?_, List.forall_mem_nil _⟩
  split
  · exact nofun
  · exact setWritable (arrayWritable fun e _ => toolErrorWritable e)

/-! Reports. -/

theorem encodeToolFilled (t : ToolMeta) :
    encodeTool t = .object (filled [("name", some (.string t.name)), ("version", some (.string t.version))]) := rfl

theorem toolOk (t : ToolMeta) : Decode.tool (settled (encodeTool t)) = .ok t := by
  have name : Holds string none t.name (some (.string t.name)) := rfl
  have version : Holds string none t.version (some (.string t.version)) := rfl
  rw [encodeToolFilled]
  refine recordOk (by decide) (.cons name.passes <| .cons version.passes .nil) fun f same => ?_
  simp only [List.forall_mem_cons] at same
  obtain ⟨atName, atVersion, _⟩ := same
  rw [name.get atName, version.get atVersion]
  rfl

theorem toolWritable (t : ToolMeta) : Writable 1 (encodeTool t) := by
  rw [encodeToolFilled]
  refine filledWritable ?_
  simp only [List.forall_mem_cons]
  exact ⟨setWritable (stringWritable 0 _), setWritable (stringWritable 0 _), List.forall_mem_nil _⟩

theorem timestampOk {t : Timestamp} (representable : t.isRepresentable) :
    Decode.timestamp (settled (.string t.text)) = .ok t := by
  have kept : settled (.string t.text) = .string t.text := rfl
  rw [kept, Decode.timestamp, Timestamp.parseText representable]

theorem verdictOk (v : Verdict) : Decode.verdict (settled (.string v.text)) = .ok v := by
  cases v <;> rfl

/-- Reports that can be stored: of the one schema there is, with times that RFC 3339 can write. -/
structure Storable (r : Report) : Prop where
  schema : r.schemaId = schemaV1
  startedAt : r.startedAt.isRepresentable
  finishedAt : r.finishedAt.isRepresentable
  places : ∀ f ∈ r.findings, ∀ l ∈ f.location, l.Fits
  data : ∀ f ∈ r.findings, f.data.Plain
  summary : r.summary.Fits

def slots (r : Report) : List (String × Option Json) := [("schema", some (.string r.schemaId)),
  ("tool", some (encodeTool r.tool)), ("started_at", some (.string r.startedAt.text)),
  ("finished_at", some (.string r.finishedAt.text)), ("verdict", some (.string r.verdict.text)),
  ("findings", some (.array (r.findings.map encodeFinding))), ("data", some (encodeSummary r.summary))]

theorem encodeFilled (r : Report) : encode r = .object (filled r.slots) := rfl

theorem reportOk {r : Report} (storable : r.Storable) : Decode.report (settled (encode r)) = .ok r := by
  have schema : Holds string none r.schemaId (some (.string r.schemaId)) := rfl
  have tool : Holds Decode.tool none r.tool (some (encodeTool r.tool)) := toolOk r.tool
  have started : Holds Decode.timestamp none r.startedAt (some (.string r.startedAt.text)) := timestampOk storable.startedAt
  have finished : Holds Decode.timestamp none r.finishedAt (some (.string r.finishedAt.text)) :=
    timestampOk storable.finishedAt
  have verdict : Holds Decode.verdict none r.verdict (some (.string r.verdict.text)) := verdictOk r.verdict
  have findings : Holds (list Decode.finding) none r.findings (some (.array (r.findings.map encodeFinding))) :=
    listHolds fun f member => findingOk (storable.places f member) (storable.data f member).ordered
  have summary : Holds Decode.summary none r.summary (some (encodeSummary r.summary)) := summaryOk storable.summary
  rw [encodeFilled]
  refine recordOk (by decide) (.cons schema.passes <| .cons tool.passes <| .cons started.passes <| .cons finished.passes <|
    .cons verdict.passes <| .cons findings.passes <| .cons summary.passes .nil) fun f same => ?_
  simp only [slots, List.forall_mem_cons] at same
  obtain ⟨atSchema, atTool, atStarted, atFinished, atVerdict, atFindings, atSummary, _⟩ := same
  rw [schema.get atSchema, tool.get atTool, started.get atStarted, finished.get atFinished, verdict.get atVerdict,
    findings.get atFindings, summary.get atSummary]
  rfl

theorem reportWritable {r : Report} (storable : r.Storable) : Writable depthLimit (encode r) := by
  have findings : Writable 103 (.array (r.findings.map encodeFinding)) :=
    arrayWritable fun f member => findingWritable (d := 100) (storable.places f member)
      ⟨(storable.data f member).exact, Nat.le_succ_of_le (storable.data f member).shallow⟩
  rw [encodeFilled]
  refine (filledWritable (d := 103) ?_).weaken (by decide)
  simp only [slots, List.forall_mem_cons]
  exact ⟨setWritable (stringWritable _ _), setWritable ((toolWritable r.tool).weaken (by decide)),
    setWritable (stringWritable _ _), setWritable (stringWritable _ _), setWritable (stringWritable _ _),
    setWritable findings, setWritable ((summaryWritable storable.summary).weaken (by decide)), List.forall_mem_nil _⟩

theorem schemaNameRead (r : Report) : schemaName (settled (encode r)) = r.schemaId := by
  have distinct : (r.slots.map Prod.fst).Nodup := by
    simp only [slots, List.map_cons, List.map_nil]
    decide
  have found := lookupRead distinct List.mem_cons_self
  rw [schemaName, encodeFilled, settled, field?, found]
  rfl

theorem parseSerialized {r : Report} (storable : r.Storable) : parse r.serialize = .ok r := by
  have writable := reportWritable storable
  rw [parse, serialize, parseWritten writable.exact writable.shallow]
  dsimp only
  rw [schemaNameRead, storable.schema, if_neg (fun other => other rfl), reportOk storable]
  rfl

/-- A report that can be stored is written, and what is read back is that report, down to its renderings. -/
theorem storedReport {r : Report} (storable : r.Storable) : ∃ text, r.written = .ok text ∧ parse text = .ok r ∧
    (parse text).map (View.Markdown.render ∘ View.ofReport) = .ok (View.Markdown.render (View.ofReport r)) ∧
    ∀ limit, (parse text).map (fun stored => View.Annotation.render (View.ofReport stored) limit) =
      .ok (View.Annotation.render (View.ofReport r) limit) := by
  have read := parseSerialized storable
  refine ⟨r.serialize, ?_, read, ?_, fun limit => ?_⟩
  · rw [written, Timestamp.hasTextRepresentable storable.startedAt, Timestamp.hasTextRepresentable storable.finishedAt]
    rfl
  · rw [read]; rfl
  · rw [read]; rfl

theorem storedReportUnsorted :
    let report : Report := ⟨schemaV1, toolMeta, .epoch, ⟨2024, 2, 29, 23, 59, 59, 120000000, -330⟩, .warn,
      [⟨.warning, "r", "c", "a\nb \"é\"\x01", some ⟨⟨"a.tf"⟩, some 1, none, some 4294967295, none⟩, none, some "u", none,
        .object [("declared", .array [.string "b", .null]), ("size", .integer (-3))]⟩],
      ⟨"default", 1, 2, ["r"], 1, 1, none, [⟨"r", none, "m"⟩]⟩⟩
    ∃ text, report.written = .ok text ∧ parse text = .ok report ∧
      (parse text).map (View.Markdown.render ∘ View.ofReport) = .ok (View.Markdown.render (View.ofReport report)) ∧
      ∀ limit, (parse text).map (fun stored => View.Annotation.render (View.ofReport stored) limit) =
        .ok (View.Annotation.render (View.ofReport report) limit) := by
  refine storedReport ⟨rfl, by decide, by decide, ?_, ?_, ⟨by decide, by decide, by decide, by decide⟩⟩
  · intro f member l place
    cases List.mem_singleton.mp member
    cases place
    exact ⟨by decide, by decide, by decide, by decide⟩
  · intro f member
    cases List.mem_singleton.mp member
    exact ⟨by decide, by decide, by decide⟩

end Report
end DeclOrder
