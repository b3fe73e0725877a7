import PlanWire.Proofs.Json.Written
import PlanWire.Proofs.Log.Outcome

/-!
# What a line takes from its members

A line has the header that its object holds by itself, and the type that the
object names, also where nothing but the type is known of it. Consulted are the
members of the header, the type, and what the type owns; no other member
changes the line that is read or the error that is told.
-/

set_option autoImplicit false

namespace PlanWire.Log

variable {members others : Members}

theorem type_of_tag? {body : Body} {tag : Tag} (h : body.tag? = some tag) :
    body.type = tag.name := by
  cases body <;> cases h <;> rfl

theorem lineType_cases (members : Members) :
    Dict.get? "type" members = some (.str (lineType members)) ∨
      lineType members = "" ∧ ∀ type, Dict.get? "type" members ≠ some (.str type) := by
  unfold lineType
  split
  · next type htype => exact .inl htype
  · next hnone => exact .inr ⟨rfl, fun type htype => hnone type htype⟩

theorem type_of_decided {tag : Tag} {found : Option Body}
    (h : Decided members tag (.ok found)) : (found.getD (.unknown tag.name)).type = tag.name := by
  cases h with
  | lacking => rfl
  | read _ _ type => exact type_of_tag? type

theorem type_of_readBody {body : Body} (h : readBody members = .ok body) :
    body.type = lineType members := by
  by_cases htyped : ∃ tag, Typed members tag
  · obtain ⟨tag, htag⟩ := htyped
    obtain ⟨read, hread, hdecided⟩ := decided_reader members tag
    rw [readBody_of_typed htag hread, map_eq_ok] at h
    obtain ⟨found, hfound, rfl⟩ := h
    rw [hfound] at hdecided
    rw [lineType_of_typed htag]
    exact type_of_decided hdecided
  · rw [readBody_of_untyped fun tag htag => htyped ⟨tag, htag⟩] at h
    cases h
    rfl

theorem ofMembers_eq_ok {line : Line} :
    Line.ofMembers members = .ok line ↔
      readHeader members = .ok line.header ∧ readBody members = .ok line.body := by
  simp only [Line.ofMembers, bind_eq_ok]
  constructor
  · rintro ⟨header, hheader, body, hbody, hline⟩
    cases hline
    exact ⟨hheader, hbody⟩
  · rintro ⟨hheader, hbody⟩
    exact ⟨_, hheader, _, hbody, rfl⟩

theorem ofBytes_of_read {bytes : List UInt8} (h : Json.read bytes = some (.obj members)) :
    Line.ofBytes bytes = ofShape (Line.ofMembers members) := by
  simp only [Line.ofBytes, h]

theorem ofBytes_eq_ok {bytes : List UInt8} {line : Line} (h : Line.ofBytes bytes = .ok line) :
    ∃ members, Json.read bytes = some (.obj members) ∧ Line.ofMembers members = .ok line := by
  unfold Line.ofBytes at h
  split at h
  · next members hread =>
    refine ⟨members, hread, ?_⟩
    cases hline : Line.ofMembers members with
    | error fault =>
      rw [hline, ofShape_error] at h
      cases h
    | ok other =>
      rw [hline, ofShape_ok] at h
      cases h
      rfl
  · cases h

/-- Whatever line is read, its header is the one that the object holds by itself,
and its type is the text under the key of the type, or empty without such a text. -/
theorem header_and_type_kept {bytes : List UInt8} {line : Line}
    (h : Line.ofBytes bytes = .ok line) :
    ∃ members, Json.read bytes = some (.obj members) ∧
      Header.record.codec.decode (.obj members) = .ok line.header ∧
      (Dict.get? "type" members = some (.str line.body.type) ∨
        line.body.type = "" ∧ ∀ type, Dict.get? "type" members ≠ some (.str type)) := by
  obtain ⟨members, hread, hline⟩ := ofBytes_eq_ok h
  obtain ⟨hheader, hbody⟩ := ofMembers_eq_ok.1 hline
  refine ⟨members, hread, hheader, ?_⟩
  rw [type_of_readBody hbody]
  exact lineType_cases members

def payloadlessMembers : Members :=
  [("@level", .str "warn"), ("@message", .str "quota"), ("diagnostic", .null),
    ("type", .str "diagnostic")]

theorem read_payloadlessMembers : Json.read (Json.obj payloadlessMembers).bytes =
    some (.obj payloadlessMembers) := by
  refine Json.read_bytes ?_ ⟨(Dict.sorted_iff_keys _).2 (by decide), ?_⟩ (by decide)
  · simp [payloadlessMembers, Json.numbers_obj, Json.numbers_str, Json.numbers_null]
  · simp [payloadlessMembers, Json.WellFormedMembers, Json.WellFormed]

theorem header_and_type_kept_payloadless :
    let line : Line := ⟨⟨.warn, "quota", none⟩, .unknown "diagnostic"⟩
    Line.ofBytes (Json.obj payloadlessMembers).bytes = .ok line ∧
      ∃ members, Json.read (Json.obj payloadlessMembers).bytes = some (.obj members) ∧
        Header.record.codec.decode (.obj members) = .ok line.header ∧
        (Dict.get? "type" members = some (.str line.body.type) ∨
          line.body.type = "" ∧ ∀ type, Dict.get? "type" members ≠ some (.str type)) := by
  intro line
  have hline : Line.ofBytes (Json.obj payloadlessMembers).bytes = .ok line := by
    rw [ofBytes_of_read read_payloadlessMembers]
    rfl
  exact ⟨hline, header_and_type_kept hline⟩

def Tag.owned : Tag → List String
  | .version => ["terraform", "ui"]
  | .log => []
  | .diagnostic => ["diagnostic"]
  | .listStart => ["list_start"]
  | .listResourceFound => ["list_resource_found"]
  | .listComplete => ["list_complete"]
  | .initOutput => ["message_code"]

/-- The members that count: the header, the type, and what a registered type owns. -/
inductive Consulted (members : Members) : String → Prop
  | level : Consulted members "@level"
  | message : Consulted members "@message"
  | timestamp : Consulted members "@timestamp"
  | type : Consulted members "type"
  | owned {tag : Tag} {key : String} (typed : Typed members tag) (mine : key ∈ tag.owned) :
      Consulted members key

/-- What counts for the one object is absent in both or the same in both. -/
def Agree (members others : Members) : Prop :=
  ∀ key, Consulted members key → Dict.get? key members = Dict.get? key others

theorem readHeader_congr (h : Agree members others) : readHeader members = readHeader others := by
  have hfields : Header.record.fields.read members = Header.record.fields.read others := by
    apply Fields.read_congr
    intro name hname
    have hname : name ∈ ["@level", "@message", "@timestamp"] := hname
    simp only [List.mem_cons, List.not_mem_nil, or_false] at hname
    rcases hname with rfl | rfl | rfl
    · exact h _ .level
    · exact h _ .message
    · exact h _ .timestamp
  rw [readHeader, readHeader, Record.ofMembers, Record.ofMembers, hfields]

theorem owned_congr {α : Type} (codec : Codec α) {key : String}
    (h : Dict.get? key members = Dict.get? key others) :
    owned codec key members = owned codec key others := by
  simp only [owned, h]

theorem readOne_congr {α : Type} (codec : Codec α) {key : String} (body : α → Body)
    (h : ∀ name ∈ [key], Dict.get? name members = Dict.get? name others) :
    readOne codec key body members = readOne codec key body others := by
  rw [readOne, readOne, owned_congr codec (h key (List.mem_singleton_self key))]

theorem reader_congr {tag : Tag} {read : Members → Except Fault (Option Body)}
    (hread : Dict.get? tag.name readers = some read)
    (h : ∀ key ∈ tag.owned, Dict.get? key members = Dict.get? key others) :
    read members = read others := by
  cases tag with
  | version =>
    cases hread
    rw [readVersion, readVersion, owned_congr _ (h "terraform" (by decide)),
      owned_congr _ (h "ui" (by decide))]
  | log =>
    cases hread
    rfl
  | diagnostic =>
    cases hread
    exact readOne_congr _ _ h
  | listStart =>
    cases hread
    exact readOne_congr _ _ h
  | listResourceFound =>
    cases hread
    exact readOne_congr _ _ h
  | listComplete =>
    cases hread
    exact readOne_congr _ _ h
  | initOutput =>
    cases hread
    exact readOne_congr _ _ h

theorem readBody_congr (h : Agree members others) : readBody members = readBody others := by
  have htype : Dict.get? "type" members = Dict.get? "type" others := h _ .type
  by_cases htyped : ∃ tag, Typed members tag
  · obtain ⟨tag, htag⟩ := htyped
    have hother : Typed others tag := htype.symm.trans htag
    obtain ⟨read, hread, -⟩ := decided_reader members tag
    rw [readBody_of_typed htag hread, readBody_of_typed hother hread,
      reader_congr hread fun key hkey => h key (.owned htag hkey)]
  · have huntyped : ∀ tag, ¬ Typed members tag := fun tag htag => htyped ⟨tag, htag⟩
    have hothers : ∀ tag, ¬ Typed others tag := fun tag htag => huntyped tag (htype.trans htag)
    rw [readBody_of_untyped huntyped, readBody_of_untyped hothers, lineType, lineType, htype]

theorem ofMembers_congr (h : Agree members others) :
    Line.ofMembers members = Line.ofMembers others := by
  rw [Line.ofMembers, Line.ofMembers, readHeader_congr h, readBody_congr h]

/-- Two texts with objects that agree on what counts for the one are the same
line, or they are refused for the same fault. -/
theorem unconsulted_ignored {bytes text : List UInt8}
    (hbytes : Json.read bytes = some (.obj members)) (htext : Json.read text = some (.obj others))
    (h : Agree members others) : Line.ofBytes bytes = Line.ofBytes text := by
  rw [ofBytes_of_read hbytes, ofBytes_of_read htext, ofMembers_congr h]

def plainMembers : Members :=
  [("@level", .str "info"), ("@message", .str "1.9.0"), ("terraform", .str "1.9.0"),
    ("type", .str "version"), ("ui", .str "1.2")]

def crowdedMembers : Members :=
  [("@level", .str "info"), ("@message", .str "1.9.0"), ("@module", .str "ui"),
    ("diagnostic", .bool true), ("list_start", .arr [.null]), ("terraform", .str "1.9.0"),
    ("type", .str "version"), ("ui", .str "1.2")]

theorem agree_crowdedMembers : Agree plainMembers crowdedMembers := by
  intro key h
  have hversion : Typed plainMembers .version := rfl
  cases h with
  | owned typed mine =>
    obtain rfl := typed_unique hversion typed
    simp only [Tag.owned, List.mem_cons, List.not_mem_nil, or_false] at mine
    rcases mine with rfl | rfl <;> rfl
  | _ => rfl

theorem unconsulted_ignored_crowded :
    Json.read (Json.obj plainMembers).bytes = some (.obj plainMembers) ∧
      Json.read (Json.obj crowdedMembers).bytes = some (.obj crowdedMembers) ∧
      Agree plainMembers crowdedMembers ∧
      Line.ofBytes (Json.obj plainMembers).bytes = Line.ofBytes (Json.obj crowdedMembers).bytes := by
  have hplain : Json.read (Json.obj plainMembers).bytes = some (.obj plainMembers) := by
    refine Json.read_bytes ?_ ⟨(Dict.sorted_iff_keys _).2 (by decide), ?_⟩ (by decide)
    · simp [plainMembers, Json.numbers_obj, Json.numbers_str]
    · simp [plainMembers, Json.WellFormedMembers, Json.WellFormed]
  have hcrowded : Json.read (Json.obj crowdedMembers).bytes = some (.obj crowdedMembers) := by
    refine Json.read_bytes ?_ ⟨(Dict.sorted_iff_keys _).2 (by decide), ?_⟩ (by decide)
    · simp [crowdedMembers, Json.numbers_obj, Json.numbers_arr, Json.numbers_str,
        Json.numbers_bool, Json.numbers_null]
    · simp [crowdedMembers, Json.WellFormedMembers, Json.WellFormedItems, Json.WellFormed]
  exact ⟨hplain, hcrowded, agree_crowdedMembers,
    unconsulted_ignored hplain hcrowded agree_crowdedMembers⟩

end PlanWire.Log
