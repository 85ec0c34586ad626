import StreamPlacement.Proofs.Backhaul.Booking
import StreamPlacement.Proofs.Decimal.Numeral
import StreamPlacement.Proofs.Files.Memory
import StreamPlacement.Simulation.Setup

/-!
What is read from the listings of nodes and links.

Every link of a topology that is read is what one row says, and keeps the bounds that rows have to
keep: both ends are nodes, and the share that is lost is between zero and one. Its rate is asked
only not to be at most zero. This makes it positive unless it is not a number; and for a rate that
is not a number there is never room, whatever is given back before.
-/

namespace StreamPlacement.Listing

/-! ### Rows -/

section Rows

variable {β : Type} {file : String}

/-- Rows are accepted if every single one is, and then give one value each, in order. -/
theorem readRows_eq_ok_iff {read : Fields → Except RowFault β} {rows : List (Nat × Fields)}
    {values : List β} :
    readRows file read rows = .ok values ↔
      List.Forall₂ (fun row value => read row.2 = .ok value) rows values := by
  induction rows generalizing values with
  | nil =>
      rw [readRows, List.forall₂_nil_left_iff, Except.ok.injEq, eq_comm]
  | cons row rows ih =>
      simp only [List.forall₂_cons_left_iff, ← ih, readRows]
      cases read row.2 with
      | error fault => simp
      | ok value =>
          cases readRows file read rows with
          | error fault => simp [Except.map]
          | ok rest => simp [Except.map, eq_comm]

theorem field_eq_ok_iff {read : List Char → Option β} {name : String} {fields : Fields}
    {position : Nat} {value : β} :
    field read name fields position = .ok value ↔
      ∃ text, fields[position]? = some text ∧ read text = some value := by
  unfold field
  cases fields[position]? with
  | none => simp
  | some text => cases hread : read text <;> simp [hread]

end Rows

/-! ### Links -/

/-- What the fields of a row say of the link that is read of it, and what is checked of it. -/
structure SpellsLink (fields : Fields) (link : Link Float) : Prop where
  src : ∃ text, fields[0]? = some text ∧ Decimal.readWord? text = some link.src.index
  dst : ∃ text, fields[1]? = some text ∧ Decimal.readWord? text = some link.dst.index
  rate : ∃ text, fields[2]? = some text ∧ Decimal.readFloat? text = some link.rate
  delay : ∃ text, fields[3]? = some text ∧ Decimal.readFloat? text = some link.delay
  loss : ∃ text, fields[4]? = some text ∧ Decimal.readFloat? text = some link.loss
  buffer : ∃ text size, fields[5]? = some text ∧ Decimal.readFloat? text = some size ∧
    link.bufferSize = readLink.bufferSize size
  rate_checked : ¬ link.rate ≤ 0
  loss_nonneg : 0 ≤ link.loss
  loss_le_one : link.loss ≤ 1

theorem bind_eq_ok {ε β γ : Type} {result : Except ε β} {next : β → Except ε γ} {value : γ}
    (h : (result >>= next) = .ok value) :
    ∃ middle, result = .ok middle ∧ next middle = .ok value := by
  cases result with
  | error fault => cases h
  | ok middle => exact ⟨middle, rfl, h⟩

/-- A row that is accepted spells its link. -/
theorem spellsLink_of_readLink {fields : Fields} {link : Link Float}
    (h : readLink fields = .ok link) : SpellsLink fields link := by
  unfold readLink at h
  split at h
  · cases h
  obtain ⟨src, hsrc, h⟩ := bind_eq_ok h
  obtain ⟨dst, hdst, h⟩ := bind_eq_ok h
  obtain ⟨rate, hrate, h⟩ := bind_eq_ok h
  obtain ⟨delay, hdelay, h⟩ := bind_eq_ok h
  obtain ⟨loss, hloss, h⟩ := bind_eq_ok h
  obtain ⟨buffer, hbuffer, h⟩ := bind_eq_ok h
  rw [field_eq_ok_iff] at hsrc hdst hrate hdelay hloss hbuffer
  split at h
  · cases h
  next hpositive =>
  split at h
  · next hshare =>
      obtain ⟨hnonneg, hle⟩ := Bool.and_eq_true_iff.mp hshare
      obtain rfl := Except.ok.inj h
      obtain ⟨text, hfield, hread⟩ := hbuffer
      exact ⟨hsrc, hdst, hrate, hdelay, hloss, ⟨text, buffer, hfield, hread, rfl⟩, hpositive,
        of_decide_eq_true hnonneg, of_decide_eq_true hle⟩
  · cases h

/-! ### Topologies -/

section Topologies

variable {memory : MemoryFiles} {nodesFile linksFile : String} {unit : Float} {t : Topology Float}

/-- The topology that two files in memory spell. -/
theorem outcome_readTopology :
    memory.outcome (readTopology MemoryFiles.current nodesFile linksFile unit) =
      ((do
        let nodes ← nodes nodesFile (← memory.text nodesFile)
        let links ← links linksFile (← memory.text linksFile)
        topology unit nodes links), memory) := by
  open MemoryFiles in
  exact outcome_bind_of_eq (outcome_text _) fun _ =>
    outcome_bind_of_eq (outcome_liftM _) fun _ =>
      outcome_bind_of_eq (outcome_text _) fun _ =>
        outcome_bind_of_eq (outcome_liftM _) fun _ => outcome_liftM _

/-- The links of a topology that is read are those of the rows of its second file, and lead from
nodes to nodes. -/
theorem links_of_readTopology
    (h : (memory.outcome (readTopology MemoryFiles.current nodesFile linksFile unit)).1 = .ok t) :
    ∃ text, memory.text linksFile = .ok text ∧
      List.Forall₂ (fun row link => SpellsLink row.2 link) (rows text) t.links ∧
      ∀ link ∈ t.links, LoadTable.Inside t.nodes.length link.edge := by
  rw [outcome_readTopology] at h
  obtain ⟨nodesText, -, h⟩ := bind_eq_ok h
  obtain ⟨nodes, -, h⟩ := bind_eq_ok h
  obtain ⟨text, htext, h⟩ := bind_eq_ok h
  obtain ⟨links, hlinks, h⟩ := bind_eq_ok h
  obtain ⟨-, hinside, rfl⟩ := Topology.build_eq_ok_iff.mp h
  have hcount : (sortByKey (·.id.index) nodes).length = nodes.length :=
    (sortByKey_perm _ nodes).length_eq
  refine ⟨text, htext, (readRows_eq_ok_iff.mp hlinks).imp fun _ _ => spellsLink_of_readLink,
    fun link hlink => ?_⟩
  show LoadTable.Inside (sortByKey (·.id.index) nodes).length link.edge
  rw [hcount]
  exact hinside link hlink

/-- A rate is positive unless its field spells what is not a number. -/
theorem SpellsLink.pos_iff {fields : Fields} {link : Link Float} (h : SpellsLink fields link) :
    ∃ text, fields[2]? = some text ∧ (0 < link.rate ↔ ¬ Decimal.SpellsNaN text) := by
  obtain ⟨text, hfield, hread⟩ := h.rate
  refine ⟨text, hfield, ?_⟩
  rw [Double.pos_iff_of_not_le_zero h.rate_checked, Decimal.isNaN_iff_of_readFloat? hread]

/-- Once all is given back there is room for as much as a link carries, exactly if its rate is
positive. -/
theorem admits_rate_iff {e : Edge} {link : Link Float} (hlink : t.link? e = some link)
    (hrate : ¬ link.rate ≤ 0) (postings : List Topology.Posting) :
    ((t.postAll postings).reset e).admits e link.rate = true ↔ 0 < link.rate := by
  have hfound : (t.postAll postings).link? e = some link :=
    ((Topology.sameNetwork_postAll t postings).link?_eq e).trans hlink
  have hsum : (0 : Float) + link.rate = link.rate := Double.zero_add_of_not_le_zero hrate
  rw [Topology.admits_reset hfound, decide_eq_true_iff, Double.pos_iff_of_not_le_zero hrate,
    ← Double.le_self_iff]
  exact iff_of_eq (congrArg (· ≤ link.rate) hsum)

theorem exists_row {α β : Type} {R : α → β → Prop} {rows : List α} {values : List β}
    (h : List.Forall₂ R rows values) {value : β} (hvalue : value ∈ values) :
    ∃ row ∈ rows, R row value := by
  induction h with
  | nil => cases hvalue
  | cons hhead _ ih =>
      rcases List.mem_cons.mp hvalue with rfl | htail
      · exact ⟨_, List.mem_cons_self, hhead⟩
      · obtain ⟨row, hrow, hR⟩ := ih htail
        exact ⟨row, List.mem_cons_of_mem _ hrow, hR⟩

/-- Every link of a topology that is read joins two nodes and loses a share between zero and one.
Its rate is positive exactly if the field for it does not spell what is not a number. Between the
ends of a link, whatever was booked or given back before, a reset makes room for the rate of the
link that is found there exactly if this rate is positive. -/
theorem links_usable
    (h : (memory.outcome (readTopology MemoryFiles.current nodesFile linksFile unit)).1 = .ok t) :
    ∃ text, memory.text linksFile = .ok text ∧
      List.Forall₂ (fun row link => ∃ rate, row.2[2]? = some rate ∧
        (0 < link.rate ↔ ¬ Decimal.SpellsNaN rate)) (rows text) t.links ∧
      (∀ link ∈ t.links, LoadTable.Inside t.nodes.length link.edge ∧
        0 ≤ link.loss ∧ link.loss ≤ 1) ∧
      ∀ link ∈ t.links, ∀ e, link.joins e = true → ∃ found ∈ t.links, t.link? e = some found ∧
        ∀ postings, ((t.postAll postings).reset e).admits e found.rate = true ↔ 0 < found.rate := by
  obtain ⟨text, htext, hrows, hinside⟩ := links_of_readTopology h
  have hspelled : ∀ link ∈ t.links, ∃ fields, SpellsLink fields link := fun link hlink => by
    obtain ⟨row, -, hrow⟩ := exists_row hrows hlink
    exact ⟨row.2, hrow⟩
  refine ⟨text, htext, hrows.imp fun _ _ hrow => hrow.pos_iff, fun link hlink => ?_,
    fun link hlink e hjoins => ?_⟩
  · obtain ⟨fields, hrow⟩ := hspelled link hlink
    exact ⟨hinside link hlink, hrow.loss_nonneg, hrow.loss_le_one⟩
  · have hsome : (t.link? e).isSome = true := List.find?_isSome.mpr ⟨link, hlink, hjoins⟩
    obtain ⟨found, hfound⟩ := Option.isSome_iff_exists.mp hsome
    have hmem := List.mem_of_find?_eq_some hfound
    obtain ⟨fields, hrow⟩ := hspelled found hmem
    exact ⟨found, hmem, hfound, admits_rate_iff hfound hrow.rate_checked⟩

end Topologies

/-- A server, an access point, and some links between them. -/
def pair (links : String) : MemoryFiles :=
  .ofList [("nodes", "0 server\n1 ap".toUTF8.toList), ("links", links.toUTF8.toList)]

/-- What is read of the pair. -/
def readPair (links : String) : Except Fault (Topology Float) :=
  ((pair links).outcome (readTopology MemoryFiles.current "nodes" "links" 4300000)).1

theorem readPair_any {links : String} {check : Topology Float → Bool}
    (h : (readPair links).toOption.any check = true) :
    ∃ t, readPair links = .ok t ∧ check t = true := by
  cases hread : readPair links with
  | error fault =>
      rw [hread] at h
      cases h
  | ok t =>
      rw [hread] at h
      exact ⟨t, rfl, h⟩

/-- The one link of a pair has a positive rate, and there is room for it after every reset. -/
theorem links_usable_on_pair :
    ∃ t link, readPair "0 1 1e7 0.002 0 100" = .ok t ∧ t.links = [link] ∧ 0 < link.rate ∧
      ∀ postings,
        ((t.postAll postings).reset link.edge).admits link.edge link.rate = true := by
  have hany : (readPair "0 1 1e7 0.002 0 100").toOption.any (fun _ => true) = true := by
    decide +kernel
  have hfile : (pair "0 1 1e7 0.002 0 100").text "links" =
      .ok "0 1 1e7 0.002 0 100".toList := by decide +kernel
  have hfields : (rows "0 1 1e7 0.002 0 100".toList).map (·.2[2]?) = [some "1e7".toList] := by
    decide +kernel
  obtain ⟨t, hread, -⟩ := readPair_any hany
  obtain ⟨text, htext, hrows, -, hroom⟩ := links_usable hread
  obtain rfl := Except.ok.inj (hfile.symm.trans htext)
  have hfield : List.Forall₂ (fun field link => ∃ rate, field = some rate ∧
      (0 < link.rate ↔ ¬ Decimal.SpellsNaN rate)) [some "1e7".toList] t.links :=
    hfields ▸ List.forall₂_map_left_iff.mpr hrows
  obtain ⟨link, _, ⟨rate, hrate, hpos⟩, hnil, hlinks⟩ := List.forall₂_cons_left_iff.mp hfield
  obtain rfl := List.forall₂_nil_left_iff.mp hnil
  obtain rfl := Option.some.inj hrate
  have hlink : link ∈ t.links := hlinks ▸ List.mem_cons_self
  have hself : link.joins link.edge = true := by simp [Link.joins]
  obtain ⟨found, hfound, -, hadmits⟩ := hroom link hlink link.edge hself
  obtain rfl : found = link := List.mem_singleton.mp (hlinks ▸ hfound)
  have hrate : 0 < found.rate := hpos.mpr (by decide)
  exact ⟨t, found, hread, hlinks, hrate, fun postings => (hadmits postings).mpr hrate⟩

/-- A rate that is not a number is accepted, and there is no room for it even where nothing is
booked. -/
theorem rate_unchecked :
    ∃ t, readPair "0 1 nan 0.002 0 100" = .ok t ∧ ∃ link ∈ t.links, ¬ 0 < link.rate ∧
      ∃ found, t.link? link.edge = some found ∧
        (t.reset link.edge).admits link.edge found.rate = false := by
  have hany : (readPair "0 1 nan 0.002 0 100").toOption.any (fun t =>
      t.links.any fun link => !(0 < link.rate) && (t.link? link.edge).any fun found =>
        !(t.reset link.edge).admits link.edge found.rate) = true := by decide +kernel
  obtain ⟨t, hread, hcheck⟩ := readPair_any hany
  obtain ⟨link, hlink, hcheck⟩ := List.any_eq_true.mp hcheck
  obtain ⟨hrate, hcheck⟩ := Bool.and_eq_true_iff.mp hcheck
  obtain ⟨found, hfound, hroom⟩ := (Option.any_eq_true _ _).mp hcheck
  exact ⟨t, hread, link, hlink, by simpa using hrate, found, hfound, by simpa using hroom⟩

end StreamPlacement.Listing
