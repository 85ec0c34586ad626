import StreamPlacement.Documents.Trace
import StreamPlacement.Proofs.Documents.RoundTrip
import StreamPlacement.Proofs.Json.Rearranged

/-!
Documents that are rearranged.

Each record names its fields once, in its shape, and reads them by these names alone. So neither the
order of members nor members it does not know make a difference to what is read, in the records that
are nested in it as little as in itself.
-/

namespace StreamPlacement

open Json

/-! ### Records without records in them -/

namespace Json

variable {β : Type} {names : List String}

/-- A record whose fields are read as they are. -/
theorem respects_flat (hnodup : names.Nodup) {build : Given → Option β}
    (h : ∀ given given' : Given, given.positional = given'.positional →
      (∀ name ∈ names, given.fields.lookup name = given'.fields.lookup name) →
      build given = build given') :
    Respects (.flat names) fun value => (given? names value).bind build := by
  have hnames : (names.map fun name => (name, Shape.whole)).map Prod.fst = names := by
    rw [List.map_map]
    exact List.map_id _
  refine respects_record hnames hnodup fun given given' halike => ?_
  refine h given given' halike.positional fun name hname => ?_
  exact Option.map_injective (Option.some_injective Json)
    (halike.map_lookup name (List.mem_map.mpr ⟨name, hname, rfl⟩) (respects_whole some))

end Json

/-! ### The configuration -/

def TopologyFiles.shape : Shape := .flat ["nodesFile", "linksFile"]

theorem TopologyFiles.respects : Respects shape (Document.read? : Json → Option TopologyFiles) :=
  respects_flat (by decide) fun _ _ _ h => by
    simp only [Given.required, h "nodesFile" (by decide), h "linksFile" (by decide)]

def ResolutionEntry.shape : Shape :=
  .flat ["strategy", "interpreter", "script", "blocking", "timeoutS"]

theorem ResolutionEntry.respects :
    Respects shape (Document.read? : Json → Option ResolutionEntry) :=
  respects_flat (by decide) fun _ _ _ h => by
    simp only [Given.required, Given.defaulted, h "strategy" (by decide),
      h "interpreter" (by decide), h "script" (by decide), h "blocking" (by decide),
      h "timeoutS" (by decide)]

def ServerEntry.shape : Shape := .flat ["node", "capacity", "contents"]

theorem ServerEntry.respects : Respects shape (Document.read? : Json → Option ServerEntry) :=
  respects_flat (by decide) fun _ _ hpositional h => by
    simp only [Given.required, Given.defaulted, Given.optional, hpositional, h "node" (by decide),
      h "capacity" (by decide), h "contents" (by decide)]

def MonitorSettings.shape : Shape := .flat ["intervalS", "thresholdMbps", "redirect", "traffic"]

theorem MonitorSettings.respects :
    Respects shape (Document.read? : Json → Option (MonitorSettings Float)) :=
  respects_flat (by decide) fun _ _ _ h => by
    simp only [Given.defaulted, h "intervalS" (by decide), h "thresholdMbps" (by decide),
      h "redirect" (by decide), h "traffic" (by decide)]

def Scenario.shape : Shape := .flat ["seed", "startWindowS", "contents", "zipfExponent"]

theorem Scenario.respects : Respects shape (Document.read? : Json → Option Scenario) :=
  respects_flat (by decide) fun _ _ _ h => by
    simp only [Given.defaulted, h "seed" (by decide), h "startWindowS" (by decide),
      h "contents" (by decide), h "zipfExponent" (by decide)]

/-- The records of a configuration have shapes of their own. All else is read as it is, a choice too:
it is no record, even where it is written as an object. -/
def Configuration.shape : Shape := .record
  [("topology", TopologyFiles.shape), ("perStreamUnit", .whole), ("groupKey", .whole),
    ("resolution", ResolutionEntry.shape), ("originServer", .whole), ("clientsPerAp", .whole),
    ("defaultServerCapacity", .whole), ("servers", .list ServerEntry.shape),
    ("monitor", MonitorSettings.shape), ("provisionOnAdmissionFailure", .whole),
    ("stopTimeS", .whole), ("trace", .whole), ("scenario", Scenario.shape)]

theorem Configuration.respects : Respects shape (Document.read? : Json → Option Configuration) :=
  respects_record rfl (by decide) fun given given' h => by
    have hunit := h.defaulted "perStreamUnit" (by simp) (respects_whole float?)
    have hgrouping := h.defaulted "groupKey" (by simp)
      (respects_whole (Document.read? : Json → Option Grouping))
    have horigin := h.required "originServer" (by simp)
      (respects_whole (Document.read? : Json → Option NodeId))
    have hclients := h.defaulted "clientsPerAp" (by simp) (respects_whole word?)
    have hcapacity := h.defaulted "defaultServerCapacity" (by simp) (respects_whole word?)
    have hprovision := h.defaulted "provisionOnAdmissionFailure" (by simp)
      (respects_whole bool?)
    have hstop := h.defaulted "stopTimeS" (by simp) (respects_whole float?)
    have htrace := h.defaulted "trace" (by simp) (respects_whole (nullable? text?))
    have htopology := h.required "topology" (by simp) TopologyFiles.respects
    have hresolution := h.defaulted "resolution" (by simp) ResolutionEntry.respects
    have hservers := h.defaulted "servers" (by simp) ServerEntry.respects.list?
    have hmonitor := h.defaulted "monitor" (by simp) MonitorSettings.respects
    have hscenario := h.defaulted "scenario" (by simp) Scenario.respects.nullable?
    simp only [htopology, hunit, hgrouping, hresolution, horigin, hclients, hcapacity, hservers,
      hmonitor, hprovision, hstop, htrace, hscenario]

/-! ### Recorded workloads -/

namespace TraceEvent

/-- The fields of the events by their tags. -/
def variants : List (String × List String) :=
  [("viewerArrival", ["atS", "user", "content", "server"]),
    ("linkTraffic", ["atS", "src", "dst", "bytes"]), ("activateServers", ["atS"])]

def shape (outerDepth : Nat) : Shape := .tagged "type" outerDepth variants

/-- The tag is looked for first, and the fields are read as its variant names them. -/
theorem respects (outerDepth : Nat) : Respects (shape outerDepth) (read? outerDepth) := by
  intro value value' hsame
  have halike := hsame.alikeTagged
  unfold read?
  revert halike
  match tagged? "type" outerDepth value, tagged? "type" outerDepth value' with
  | none, none => exact fun _ => rfl
  | none, some _ => exact False.elim
  | some _, none => exact False.elim
  | some (tag, fields), some (tag', fields') =>
      -- The tag is the same for both, so both go on with the same variant, or with none.
      rintro ⟨rfl, hfields⟩
      simp only [Option.bind_eq_bind, Option.bind_some]
      split
      · refine respects_flat (by decide) (fun _ _ _ h => ?_) _ _ (hfields _ (by simp [variants]))
        simp only [Given.required, Given.defaulted, h "atS" (by decide), h "user" (by decide),
          h "content" (by decide), h "server" (by decide)]
      · refine respects_flat (by decide) (fun _ _ _ h => ?_) _ _ (hfields _ (by simp [variants]))
        simp only [Given.required, h "atS" (by decide), h "src" (by decide), h "dst" (by decide),
          h "bytes" (by decide)]
      · refine respects_flat (by decide) (fun _ _ _ h => ?_) _ _ (hfields _ (by simp [variants]))
        simp only [Given.required, h "atS" (by decide)]
      · rfl

end TraceEvent

def Trace.shape : Shape := .record [("events", .list (TraceEvent.shape 2))]

theorem Trace.respects : Respects shape (Document.read? : Json → Option Trace) :=
  respects_record rfl (by decide) fun _ _ h => by
    simp only [h.required "events" (by simp) (TraceEvent.respects 2).list?]

/-! ### The exchange with a solver -/

namespace Solver

def RosterEntry.shape : Shape := .flat ["ap", "syntheticId", "index", "userCount"]

theorem RosterEntry.respects : Respects shape (Document.read? : Json → Option RosterEntry) :=
  respects_flat (by decide) fun _ _ _ h => by
    simp only [Given.required, h "ap" (by decide), h "syntheticId" (by decide),
      h "index" (by decide), h "userCount" (by decide)]

def RequestDocument.shape : Shape :=
  .record [("id", .whole), ("congested", .whole), ("roster", .list RosterEntry.shape)]

theorem RequestDocument.respects :
    Respects shape (Document.read? : Json → Option RequestDocument) :=
  respects_record rfl (by decide) fun _ _ h => by
    simp only [h.required "id" (by simp) (respects_whole uuid?),
      h.required "congested" (by simp) (respects_whole pair?),
      h.required "roster" (by simp) RosterEntry.respects.list?]

def Assignment.shape : Shape := .flat ["groupIndex", "serverId"]

theorem Assignment.respects : Respects shape (Document.read? : Json → Option Assignment) :=
  respects_flat (by decide) fun _ _ _ h => by
    simp only [Given.required, h "groupIndex" (by decide), h "serverId" (by decide)]

def AnswerDocument.shape : Shape :=
  .record [("requestId", .whole), ("assignments", .list Assignment.shape), ("error", .whole)]

theorem AnswerDocument.respects :
    Respects shape (Document.read? : Json → Option AnswerDocument) :=
  respects_record rfl (by decide) fun _ _ h => by
    simp only [h.required "requestId" (by simp) (respects_whole uuid?),
      h.required "assignments" (by simp) Assignment.respects.list?,
      h.optional "error" (by simp) (respects_whole text?)]

end Solver

/-! ### All documents -/

namespace Document

open Solver

/-- Texts of akin values are read alike. -/
def OrderFree (β : Type) [Document β] (shape : Shape) : Prop :=
  ∀ (text text' : List Char) (value value' : Json), parse? text = some value →
    parse? text' = some value' → Akin shape value value' →
      (ofText? text : Option β) = ofText? text'

theorem orderFree_of_respects {β : Type} [Document β] {shape : Shape}
    (h : Respects shape (read? : Json → Option β)) : OrderFree β shape := by
  intro text text' value value' hparse hparse' hsame
  rw [ofText?, ofText?, hparse, hparse']
  exact h value value' hsame

/-- What is exchanged with a solver, and what names things, is read back as it was written. A text
is read as the value that it spells, and what a document makes of it depends neither on the order of
members nor on members that are not known. -/
theorem roundTrips_and_orderFree :
    (RoundTrips RequestDocument RequestDocument.Fits ∧
      RoundTrips AnswerDocument AnswerDocument.Fits ∧
      RoundTrips RosterEntry RosterEntry.Fits ∧ RoundTrips Assignment Assignment.Fits ∧
      RoundTrips ServerEntry ServerEntry.Fits ∧ RoundTrips Grouping (fun _ => True) ∧
      ∀ entity, RoundTrips (Id entity) fun id => id.index ≤ wordMax) ∧
    (∀ (text : List Char) (value : Json), Spells text value → parse? text = some value) ∧
    OrderFree Configuration Configuration.shape ∧
    OrderFree Trace Trace.shape ∧
    OrderFree TraceEvent (TraceEvent.shape 0) ∧
    OrderFree RequestDocument RequestDocument.shape ∧
    OrderFree AnswerDocument AnswerDocument.shape ∧
    OrderFree RosterEntry RosterEntry.shape ∧
    OrderFree Assignment Assignment.shape ∧
    OrderFree ServerEntry ServerEntry.shape := by
  refine ⟨⟨?_, ?_, ?_, ?_, ?_, ?_, fun entity => ?_⟩, ?_, ?_, ?_, ?_, ?_, ?_, ?_, ?_, ?_⟩
  · exact RequestDocument.lawful.roundTrips
  · exact AnswerDocument.lawful.roundTrips
  · exact RosterEntry.lawful.roundTrips
  · exact Assignment.lawful.roundTrips
  · exact ServerEntry.lawful.roundTrips
  · exact Grouping.lawful.roundTrips
  · exact (Id.lawful entity).roundTrips
  · exact fun _ _ hspells => hspells.parse?_eq
  · exact orderFree_of_respects Configuration.respects
  · exact orderFree_of_respects Trace.respects
  · exact orderFree_of_respects (TraceEvent.respects 0)
  · exact orderFree_of_respects RequestDocument.respects
  · exact orderFree_of_respects AnswerDocument.respects
  · exact orderFree_of_respects RosterEntry.respects
  · exact orderFree_of_respects Assignment.respects
  · exact orderFree_of_respects ServerEntry.respects

/-- An answer with quotes and a line break in its fault, an event whose tag comes last behind a
member that it does not know, and a configuration with a remark in front and in its topology. -/
theorem readings_of_rearranged_texts :
    (ofText? ("\x7b\"requestId\":\"01234567-89ab-cdef-0123-456789abcdef\",\"assignments\":" ++
        "[\x7b\"groupIndex\":0,\"serverId\":3\x7d],\"error\":\"no \\\"room\\\"\\n\"\x7d").toList :
        Option AnswerDocument) =
      some ⟨⟨List.range 16 ++ List.range 16⟩, [⟨0, 3⟩], some "no \"room\"\n"⟩ ∧
    (ofText? "\x7b\"mood\":[],\"atS\":1,\"type\":\"activateServers\"\x7d".toList :
        Option TraceEvent) =
      ofText? "\x7b\"type\":\"activateServers\",\"atS\":1\x7d".toList ∧
    (ofText? ("\x7b\"remark\":null,\"topology\":\x7b\"remark\":0," ++
        "\"nodesFile\":\"n\",\"linksFile\":\"l\"\x7d,\"originServer\":7\x7d").toList :
        Option Configuration) =
      some { topology := ⟨"n", "l"⟩, origin := ⟨7⟩ } := by
  obtain ⟨⟨-, hanswer, -⟩, hparse, hconfiguration, -, hevent, -⟩ := roundTrips_and_orderFree
  have hread {value : Json} {text : List Char} (hplain : Plain value)
      (htext : render .compact 0 value = text) : parse? text = some value :=
    hparse text value (htext ▸ spells_render spaced_compact hplain)
  refine ⟨?_, ?_, ?_⟩
  · refine Eq.trans (congrArg ofText? ?_) (hanswer .compact spaced_compact _
      ⟨⟨by decide, by decide⟩, by simp [Assignment.Fits, wordMax]⟩)
    decide +kernel
  · have hbehind : parse? "\x7b\"mood\":[],\"atS\":1,\"type\":\"activateServers\"\x7d".toList =
        some (record
          [("mood", .array []), ("atS", .natural 1), ("type", .ofText "activateServers")]) :=
      hread (plain_record (by simp [Plain, ArePlain, Json.ofText])) (by decide +kernel)
    have hfront : parse? "\x7b\"type\":\"activateServers\",\"atS\":1\x7d".toList =
        some (record [("type", .ofText "activateServers"), ("atS", .natural 1)]) :=
      hread (plain_record (by simp [Plain, Json.ofText])) (by decide +kernel)
    refine hevent _ _ _ _ hbehind hfront ?_
    have hunknown : ∀ variant ∈ TraceEvent.variants, "mood" ∉ variant.2 := by decide
    exact .trans (.symm (.taggedUnknown "mood" (.array []) (by decide)
      (fun variant hvariant _ => hunknown variant hvariant) rfl (by decide)))
      (.taggedOrder (.swap _ _ _))
  · have hremarked : parse? ("\x7b\"remark\":null,\"topology\":\x7b\"remark\":0," ++
          "\"nodesFile\":\"n\",\"linksFile\":\"l\"\x7d,\"originServer\":7\x7d").toList =
        some (record [("remark", .null), ("topology", record [("remark", .natural 0),
          ("nodesFile", .ofText "n"), ("linksFile", .ofText "l")]),
          ("originServer", .natural 7)]) :=
      hread ⟨rfl, trivial, rfl, ⟨rfl, trivial, rfl, rfl, rfl, rfl, trivial⟩, rfl, trivial, trivial⟩
        (by decide +kernel)
    have hbare : parse? ("\x7b\"topology\":\x7b\"nodesFile\":\"n\",\"linksFile\":\"l\"\x7d," ++
          "\"originServer\":7\x7d").toList =
        some (record [("topology", record [("nodesFile", .ofText "n"), ("linksFile", .ofText "l")]),
          ("originServer", .natural 7)]) :=
      hread ⟨rfl, ⟨rfl, rfl, rfl, rfl, trivial⟩, rfl, trivial, trivial⟩ (by decide +kernel)
    have hfiles : Akin TopologyFiles.shape
        (record [("remark", .natural 0), ("nodesFile", .ofText "n"), ("linksFile", .ofText "l")])
        (record [("nodesFile", .ofText "n"), ("linksFile", .ofText "l")]) :=
      .symm (.unknown "remark" (.natural 0) (by decide))
    have hinside : Akin Configuration.shape _ _ :=
      @Akin.member _ [] [(some "originServer", .natural 7)] "topology" _ _ _
        List.mem_cons_self hfiles
    have hsame : Akin Configuration.shape _ _ :=
      .trans (.symm (.unknown "remark" .null (by decide))) hinside
    rw [hconfiguration _ _ _ _ hremarked hbare hsame, ofText?, hbare]
    rfl

end Document

end StreamPlacement
