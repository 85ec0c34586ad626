import StreamPlacement.Documents.Configuration
import StreamPlacement.Documents.Exchange
import StreamPlacement.Proofs.Json.Rendering
import StreamPlacement.Proofs.Text.Fields

/-!
What is exchanged with a solver is read back as it was written.

A record is written with the names that it is read by, every one of them once, so each field finds
its own value. Numbers come back if they fit a word, and identifiers if they have all their digits;
strings always do. A missing value is written as null, which no other value is written as.
-/

namespace StreamPlacement

open Json

/-! ### Parts of documents -/

namespace Json

variable {β : Type}

theorem mapM_members (fields : List (String × Json)) :
    ((fields.map fun (name, value) => (some name, value)).mapM
      fun member : Option String × Json => member.1.map fun name => (name, member.2)) =
        some fields := by
  induction fields with
  | nil => rfl
  | cons field rest ih =>
      rw [List.map_cons, List.mapM_cons, ih]
      rfl

/-- A record that is read by the names it is written with gives all its fields. -/
theorem given?_record {names : List String} {fields : List (String × Json)}
    (hnames : fields.map Prod.fst = names) (hnodup : names.Nodup) :
    given? names (record fields) = some ⟨false, fields⟩ := by
  have hknown : (fields.filter fun (name, _) => names.contains name) = fields :=
    List.filter_eq_self.mpr fun field hfield =>
      List.contains_iff_mem.mpr (hnames ▸ List.mem_map_of_mem hfield)
  show (known? names (fields.map fun (name, value) => (some name, value))).map _ = _
  unfold known?
  rw [mapM_members]
  dsimp only
  rw [hknown, hnames, if_pos hnodup]
  rfl

theorem plain_record {fields : List (String × Json)} (h : ∀ field ∈ fields, Plain field.2) :
    Plain (record fields) := by
  show MembersArePlain (fields.map fun (name, value) => (some name, value))
  induction fields with
  | nil => exact trivial
  | cons field rest ih =>
      obtain ⟨hfield, hrest⟩ := List.forall_mem_cons.mp h
      exact ⟨rfl, hfield, ih hrest⟩

theorem list?_ofList {read : Json → Option β} {write : β → Json} {values : List β}
    (h : ∀ value ∈ values, read (write value) = some value) :
    list? read (ofList write values) = some values := by
  show (values.map write).mapM read = some values
  induction values with
  | nil => rfl
  | cons value rest ih =>
      obtain ⟨hvalue, hrest⟩ := List.forall_mem_cons.mp h
      rw [List.map_cons, List.mapM_cons, hvalue, ih hrest]
      rfl

theorem plain_ofList {write : β → Json} {values : List β}
    (h : ∀ value ∈ values, Plain (write value)) : Plain (ofList write values) := by
  show ArePlain (values.map write)
  induction values with
  | nil => exact trivial
  | cons value rest ih =>
      obtain ⟨hvalue, hrest⟩ := List.forall_mem_cons.mp h
      exact ⟨hvalue, ih hrest⟩

theorem word?_natural {n : Nat} (h : n ≤ wordMax) : word? (.natural n) = some n := if_pos h

end Json

/-! ### Identifiers -/

namespace Uuid

/-- An identifier that has all its digits. -/
structure Complete (id : Uuid) : Prop where
  length : id.digits.length = 32
  lt : ∀ digit ∈ id.digits, digit < 16

theorem flatten_cut {β : Type} {lengths : List Nat} {xs : List β}
    (h : xs.length = lengths.sum) : (cut lengths xs).flatten = xs := by
  induction lengths generalizing xs with
  | nil => exact (List.eq_nil_of_length_eq_zero h).symm
  | cons n rest ih =>
      rw [List.sum_cons] at h
      rw [cut, List.flatten_cons, ih (by rw [List.length_drop]; omega), List.take_append_drop]

theorem map_length_cut {β : Type} {lengths : List Nat} {xs : List β}
    (h : xs.length = lengths.sum) : (cut lengths xs).map List.length = lengths := by
  induction lengths generalizing xs with
  | nil => rfl
  | cons n rest ih =>
      rw [List.sum_cons] at h
      rw [cut, List.map_cons, ih (by rw [List.length_drop]; omega), List.length_take,
        Nat.min_eq_left (by omega)]

/-- The digits in their groups, with hyphens between them. -/
theorem toList_text (id : Uuid) :
    id.text.toList = ['-'].intercalate (cut groupLengths (id.digits.map Json.hexDigit)) := by
  rw [text, String.toList_intercalate, List.map_map]
  congr 1
  refine (List.map_congr_left fun group _ => ?_).trans (List.map_id _)
  exact String.toList_ofList

theorem hexDigit_facts : ∀ digit < 16,
    Json.hexValue? (Json.hexDigit digit) = some digit ∧ Json.hexDigit digit ≠ '-' ∧
      Json.hexDigit digit ≠ '\x7b' ∧ (Json.hexDigit digit).toLower ≠ 'u' := by
  decide

theorem ofDigits?_map {digits : List Nat} (h : ∀ digit ∈ digits, digit < 16) :
    ofDigits? (digits.map Json.hexDigit) = some ⟨digits⟩ := by
  have hmap : (digits.map Json.hexDigit).mapM Json.hexValue? = some digits := by
    induction digits with
    | nil => rfl
    | cons digit rest ih =>
        obtain ⟨hdigit, hrest⟩ := List.forall_mem_cons.mp h
        rw [List.map_cons, List.mapM_cons, (hexDigit_facts digit hdigit).1, ih hrest]
        rfl
  rw [ofDigits?, hmap]
  rfl

/-- An identifier is not taken for one in braces or for a name: it begins with a digit. -/
theorem unwrap_cons {digit : Nat} (h : digit < 16) (rest : List Char) :
    unwrap (Json.hexDigit digit :: rest) = Json.hexDigit digit :: rest := by
  obtain ⟨-, -, hbrace, hname⟩ := hexDigit_facts digit h
  have hmark : nameMark.head? = some 'u' := by decide
  unfold unwrap
  rw [if_neg fun hboth => hbrace (Option.some.inj hboth.1), if_neg]
  intro hprefix
  obtain ⟨behind, hbehind⟩ := List.isPrefixOf_iff_prefix.mp hprefix
  have hfirst := congrArg List.head? hbehind
  rw [List.head?_append_of_ne_nil _ (by decide), hmark] at hfirst
  exact hname (Option.some.inj hfirst).symm

/-- What is written for an identifier is read as it. -/
theorem ofText?_text {id : Uuid} (h : id.Complete) : ofText? id.text.toList = some id := by
  obtain ⟨hlength, hlt⟩ := h
  have hsum : (id.digits.map Json.hexDigit).length = groupLengths.sum := by
    rw [List.length_map, hlength]
    rfl
  have hpieces : Text.pieces (· == '-') id.text.toList =
      cut groupLengths (id.digits.map Json.hexDigit) := by
    rw [toList_text]
    refine Text.pieces_intercalate rfl (by rw [groupLengths, cut]; simp) fun group hgroup c hc => ?_
    have hmem : c ∈ id.digits.map Json.hexDigit :=
      flatten_cut hsum ▸ List.mem_flatten_of_mem hgroup hc
    obtain ⟨digit, hdigit, rfl⟩ := List.mem_map.mp hmem
    exact beq_eq_false_iff_ne.mpr (hexDigit_facts digit (hlt digit hdigit)).2.1
  have hunwrap : unwrap id.text.toList = id.text.toList := by
    have hpos : 0 < id.digits.length := by omega
    obtain ⟨digit, rest, hdigits⟩ := List.exists_cons_of_length_pos hpos
    rw [toList_text, hdigits]
    exact unwrap_cons (hlt digit (hdigits ▸ List.mem_cons_self)) _
  have hlong : id.text.toList.length ≠ 32 := by
    rw [toList_text]
    simp [cut, groupLengths, List.intercalate_cons_cons, hlength]
  rw [ofText?, if_neg hlong, hunwrap, ofHyphenated?, hpieces, if_pos (map_length_cut hsum),
    flatten_cut hsum, ofDigits?_map hlt]

end Uuid

/-! ### Documents -/

namespace Document

variable {β : Type} [Document β] {fits : β → Prop}

/-- Values of a kind that fit are written without decimals and read back from what is written. -/
structure Lawful (β : Type) [Document β] (fits : β → Prop) : Prop where
  plain : ∀ value : β, fits value → Plain (write value)
  read : ∀ value : β, fits value → read? (write value) = some value

/-- The text that is written for a value, in one line or spread over many, is read as the value. -/
def RoundTrips (β : Type) [Document β] (fits : β → Prop) : Prop :=
  ∀ style : Style, style.Spaced → ∀ value : β, fits value →
    ofText? (render style 0 (write value)) = some value

theorem Lawful.roundTrips (h : Lawful β fits) : RoundTrips β fits := by
  intro style hstyle value hfits
  rw [ofText?, (spells_render hstyle (h.plain value hfits)).parse?_eq]
  exact h.read value hfits

theorem Lawful.read_ofList (h : Lawful β fits) {values : List β}
    (hfits : ∀ value ∈ values, fits value) : list? read? (ofList write values) = some values :=
  list?_ofList fun value hvalue => h.read value (hfits value hvalue)

theorem Lawful.plain_ofList (h : Lawful β fits) {values : List β}
    (hfits : ∀ value ∈ values, fits value) : Plain (ofList write values) :=
  Json.plain_ofList fun value hvalue => h.plain value (hfits value hvalue)

end Document

open Document (Lawful)

theorem Id.lawful (entity : Entity) : Lawful (Id entity) fun id => id.index ≤ wordMax where
  plain _ _ := trivial
  read id h := by
    show (word? (.natural id.index)).map Id.mk = some id
    rw [word?_natural h]
    rfl

theorem Grouping.lawful : Lawful Grouping fun _ => True where
  plain grouping _ := by cases grouping <;> rfl
  read grouping _ := by cases grouping <;> decide

/-- A server whose numbers fit a word. -/
structure ServerEntry.Fits (entry : ServerEntry) : Prop where
  node : entry.node.index ≤ wordMax
  capacity : ∀ capacity ∈ entry.capacity, capacity ≤ wordMax
  contents : ∀ content ∈ entry.contents, content.index ≤ wordMax

theorem ServerEntry.lawful : Lawful ServerEntry Fits where
  plain entry h := by
    have hcontents := (Id.lawful .content).plain_ofList h.contents
    have hcapacity : Plain (Json.ofOption .natural entry.capacity) := by
      cases entry.capacity <;> exact trivial
    refine plain_record ?_
    simp only [List.forall_mem_cons, List.not_mem_nil, false_implies, implies_true, and_true]
    exact ⟨trivial, hcapacity, hcontents⟩
  read entry h := by
    have hnode := (Id.lawful .node).read entry.node h.node
    have hcontents := (Id.lawful .content).read_ofList h.contents
    have hcapacity : nullable? word? (Json.ofOption .natural entry.capacity) =
        some entry.capacity := by
      -- A capacity is a number, so it is not taken for the null of a missing one.
      cases hentry : entry.capacity with
      | none => rfl
      | some capacity =>
          exact congrArg (Option.map some) (word?_natural (h.capacity capacity hentry))
    refine Option.bind_eq_some_iff.mpr ⟨_, given?_record rfl (by decide), ?_⟩
    simp [Given.required, Given.optional, Given.defaulted, List.lookup, hnode, hcapacity, hcontents]

namespace Solver

def RosterEntry.Fits (entry : RosterEntry) : Prop :=
  ∀ n ∈ [entry.accessPoint, entry.syntheticId, entry.index, entry.viewers], n ≤ wordMax

theorem RosterEntry.lawful : Lawful RosterEntry Fits where
  plain entry _ := plain_record (by simp [Plain])
  read entry h := by
    simp only [RosterEntry.Fits, List.forall_mem_cons] at h
    refine Option.bind_eq_some_iff.mpr ⟨_, given?_record rfl (by decide), ?_⟩
    simp [Given.required, List.lookup, word?, h]

def Assignment.Fits (assignment : Assignment) : Prop :=
  assignment.group ≤ wordMax ∧ assignment.server ≤ wordMax

theorem Assignment.lawful : Lawful Assignment Fits where
  plain assignment _ := plain_record (by simp [Plain])
  read assignment h := by
    refine Option.bind_eq_some_iff.mpr ⟨_, given?_record rfl (by decide), ?_⟩
    simp [Given.required, List.lookup, word?, h.1, h.2]

theorem uuid?_text {id : Uuid} (h : id.Complete) : uuid? (.ofText id.text) = some id := by
  rw [uuid?, Json.ofText, text?, Option.bind_some]
  exact Uuid.ofText?_text h

/-- A request whose identifier is complete and whose numbers fit a word. -/
structure RequestDocument.Fits (document : RequestDocument) : Prop where
  id : document.id.Complete
  congested : document.request.congested.1 ≤ wordMax ∧ document.request.congested.2 ≤ wordMax
  roster : ∀ entry ∈ document.request.roster, entry.Fits

theorem RequestDocument.lawful : Lawful RequestDocument Fits where
  plain document h := by
    have hroster := RosterEntry.lawful.plain_ofList h.roster
    refine plain_record ?_
    simp only [List.forall_mem_cons, List.not_mem_nil, false_implies, implies_true, and_true]
    exact ⟨rfl, ⟨trivial, trivial, trivial⟩, hroster⟩
  read document h := by
    have hroster := RosterEntry.lawful.read_ofList h.roster
    have hcongested : pair? (.ofList .natural
        [document.request.congested.1, document.request.congested.2]) =
          some document.request.congested := by
      show ((word? (.natural document.request.congested.1)).bind fun first =>
        (word? (.natural document.request.congested.2)).bind fun second =>
          some (first, second)) = _
      rw [word?_natural h.congested.1, word?_natural h.congested.2]
      rfl
    refine Option.bind_eq_some_iff.mpr ⟨_, given?_record rfl (by decide), ?_⟩
    simp [Given.required, List.lookup, uuid?_text h.id, hcongested, hroster]

/-- An answer whose identifier is complete and whose numbers fit a word. -/
structure AnswerDocument.Fits (document : AnswerDocument) : Prop where
  request : document.request.Complete
  assignments : ∀ assignment ∈ document.assignments, assignment.Fits

theorem AnswerDocument.lawful : Lawful AnswerDocument Fits where
  plain document h := by
    have hassignments := Assignment.lawful.plain_ofList h.assignments
    have hfault : Plain (Json.ofOption .ofText document.fault) := by
      cases document.fault with
      | none => exact trivial
      | some text => exact rfl
    refine plain_record ?_
    simp only [List.forall_mem_cons, List.not_mem_nil, false_implies, implies_true, and_true]
    exact ⟨rfl, hassignments, hfault⟩
  read document h := by
    have hassignments := Assignment.lawful.read_ofList h.assignments
    have hfault : nullable? text? (Json.ofOption .ofText document.fault) =
        some document.fault := by
      cases document.fault <;> rfl
    refine Option.bind_eq_some_iff.mpr ⟨_, given?_record rfl (by decide), ?_⟩
    simp [Given.required, Given.optional, List.lookup, uuid?_text h.request, hassignments, hfault]

end Solver

end StreamPlacement
