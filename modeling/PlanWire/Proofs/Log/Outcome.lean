import Mathlib.Tactic.ByContra
import PlanWire.Log.Reading
import PlanWire.Proofs.Wire.Records

/-!
# What becomes of a log line

Text that holds no object is malformed. An object is refused for a fault of
shape, in the header or in a member that its type asks for. Otherwise it is a
line, which is of its type if that is registered and its payload is there, and
of unknown type if not.
-/

set_option autoImplicit false

namespace PlanWire

def Codec.Reads {α : Type} (c : Codec α) (j : Json) : Prop := ∃ a, c.decode j = .ok a

theorem Codec.reads_optional {α : Type} {c : Codec α} {j : Json} :
    c.optional.Reads j ↔ (j ≠ .null → c.Reads j) := by
  by_cases hnull : j = .null
  · subst hnull
    exact ⟨fun _ hne => absurd rfl hne, fun _ => ⟨none, rfl⟩⟩
  · rw [Reads, decode_optional hnull, exists_map_eq_ok]
    exact ⟨fun h _ => h, fun h => h hnull⟩

namespace Log

inductive Tag where
  | version
  | log
  | diagnostic
  | listStart
  | listResourceFound
  | listComplete
  | initOutput
  deriving DecidableEq

namespace Tag

def name : Tag → String
  | .version => "version"
  | .log => "log"
  | .diagnostic => "diagnostic"
  | .listStart => "list_start"
  | .listResourceFound => "list_resource_found"
  | .listComplete => "list_complete"
  | .initOutput => "init_output"

def payload? : Tag → Option String
  | .version => some "terraform"
  | .log => none
  | .diagnostic => some "diagnostic"
  | .listStart => some "list_start"
  | .listResourceFound => some "list_resource_found"
  | .listComplete => some "list_complete"
  | .initOutput => some "message_code"

def Fits : Tag → Json → Prop
  | .version, j => Codec.text.Reads j
  | .log, _ => True
  | .diagnostic, j => Diagnostic.record.codec.Reads j
  | .listStart, j => ListStart.record.codec.Reads j
  | .listResourceFound, j => ListResourceFound.record.codec.Reads j
  | .listComplete, j => ListComplete.record.codec.Reads j
  | .initOutput, j => Codec.text.Reads j

end Tag

def Body.tag? : Body → Option Tag
  | .version _ _ => some .version
  | .log => some .log
  | .diagnostic _ => some .diagnostic
  | .listStart _ => some .listStart
  | .listResourceFound _ => some .listResourceFound
  | .listComplete _ => some .listComplete
  | .initOutput _ => some .initOutput
  | .unknown _ => none

def Holds (members : Members) (key : String) (j : Json) : Prop :=
  Dict.get? key members = some j ∧ j ≠ .null

def Lacks (members : Members) (key : String) : Prop :=
  Dict.get? key members = none ∨ Dict.get? key members = some .null

/-- A member of the header has the wrong shape; only a timestamp may be null. -/
inductive HeaderFault (members : Members) : Prop
  | level {j : Json} (found : Dict.get? "@level" members = some j)
      (wrong : ¬ Level.codec.Reads j) : HeaderFault members
  | message {j : Json} (found : Dict.get? "@message" members = some j)
      (wrong : ¬ Codec.text.Reads j) : HeaderFault members
  | timestamp {j : Json} (found : Holds members "@timestamp" j)
      (wrong : ¬ timestampCodec.Reads j) : HeaderFault members

/-- A member that is consulted for the type has the wrong shape. Beside its
payload a version line may have a second member, which counts only with it. -/
inductive PayloadFault (members : Members) : Tag → Prop
  | payload {tag : Tag} {key : String} {j : Json} (consulted : tag.payload? = some key)
      (found : Holds members key j) (wrong : ¬ tag.Fits j) : PayloadFault members tag
  | ui {tool j : Json} (consulted : Holds members "terraform" tool)
      (found : Holds members "ui" j) (wrong : ¬ Codec.text.Reads j) : PayloadFault members .version

def Typed (members : Members) (tag : Tag) : Prop :=
  Dict.get? "type" members = some (.str tag.name)

def LacksPayload (members : Members) (tag : Tag) : Prop :=
  ∃ key, tag.payload? = some key ∧ Lacks members key

/-- Some member has the wrong shape. -/
def Misshapen (members : Members) : Prop :=
  HeaderFault members ∨ ∃ tag, Typed members tag ∧ PayloadFault members tag

/-- The line has no registered type, or it has not the payload of its type. -/
def Unrecognized (members : Members) : Prop :=
  (∀ tag, ¬ Typed members tag) ∨ ∃ tag, Typed members tag ∧ LacksPayload members tag

theorem exists_readHeader {members : Members} :
    (∃ header, readHeader members = .ok header) ↔ ¬ HeaderFault members := by
  have hread : (∃ header, readHeader members = .ok header) ↔
      ∃ p, Header.record.fields.read members = .read p := by
    constructor
    · rintro ⟨header, h⟩
      exact ⟨_, Record.ofMembers_eq_ok.1 h⟩
    · rintro ⟨p, h⟩
      exact ⟨Header.record.make p, Record.ofMembers_eq_ok.2 h⟩
  have hend : ∃ p, Fields.nil.read members = .read p := ⟨(), rfl⟩
  have hfields : (∃ p, Header.record.fields.read members = .read p) ↔
      (∀ j, Dict.get? "@level" members = some j → Level.codec.Reads j) ∧
      (∀ j, Dict.get? "@message" members = some j → Codec.text.Reads j) ∧
      ∀ j, Dict.get? "@timestamp" members = some j → timestampCodec.optional.Reads j := by
    rw [Header.record, Fields.exists_read_cons, Fields.exists_read_cons, Fields.exists_read_cons,
      Field.exists_read rfl, Field.exists_read rfl, Field.exists_read rfl]
    exact and_congr_right fun _ => and_congr_right fun _ => and_iff_left hend
  rw [hread, hfields]
  simp only [Codec.reads_optional]
  constructor
  · rintro ⟨hlevel, hmessage, htimestamp⟩ hfault
    cases hfault with
    | level found wrong => exact wrong (hlevel _ found)
    | message found wrong => exact wrong (hmessage _ found)
    | timestamp found wrong => exact wrong (htimestamp _ found.1 found.2)
  · intro h
    refine ⟨?_, ?_, ?_⟩
    · intro j hj
      by_contra wrong
      exact h (.level hj wrong)
    · intro j hj
      by_contra wrong
      exact h (.message hj wrong)
    · intro j hj hnull
      by_contra wrong
      exact h (.timestamp ⟨hj, hnull⟩ wrong)

inductive Owned {α : Type} (codec : Codec α) (members : Members) (key : String) :
    Except Fault (Option α) → Prop
  | lacking (h : Lacks members key) : Owned codec members key (.ok none)
  | read {j : Json} {a : α} (found : Holds members key j) (h : codec.decode j = .ok a) :
      Owned codec members key (.ok (some a))
  | faulty {j : Json} {fault : Fault} (found : Holds members key j) (wrong : ¬ codec.Reads j) :
      Owned codec members key (.error fault)

theorem owned_cases {α : Type} (codec : Codec α) (members : Members) (key : String) :
    Owned codec members key (owned codec key members) := by
  cases hj : Dict.get? key members with
  | none =>
    have howned : owned codec key members = .ok none := by simp [owned, hj]
    rw [howned]
    exact .lacking (.inl hj)
  | some j =>
    by_cases hnull : j = .null
    · subst hnull
      have howned : owned codec key members = .ok none := by simp [owned, hj]
      rw [howned]
      exact .lacking (.inr hj)
    · have howned : owned codec key members = (codec.decode j).map some := by
        cases j with
        | null => exact absurd rfl hnull
        | _ => simp [owned, hj]
      rw [howned]
      cases hd : codec.decode j with
      | ok a => exact .read ⟨hj, hnull⟩ hd
      | error fault =>
        refine .faulty ⟨hj, hnull⟩ ?_
        rintro ⟨a, ha⟩
        rw [hd] at ha
        cases ha

theorem not_lacks_of_holds {members : Members} {key : String} {j : Json}
    (h : Holds members key j) : ¬ Lacks members key := by
  rintro (hnone | hnull)
  · rw [h.1] at hnone
    cases hnone
  · rw [h.1] at hnull
    exact h.2 (Option.some.inj hnull)

theorem holds_unique {members : Members} {key : String} {i j : Json} (hi : Holds members key i)
    (hj : Holds members key j) : i = j := Option.some.inj (hi.1.symm.trans hj.1)

/-- What the reader of a type makes of a line. -/
inductive Decided (members : Members) (tag : Tag) : Except Fault (Option Body) → Prop
  | faulty {fault : Fault} (wrong : PayloadFault members tag) : Decided members tag (.error fault)
  | lacking (sound : ¬ PayloadFault members tag) (missing : LacksPayload members tag) :
      Decided members tag (.ok none)
  | read {body : Body} (sound : ¬ PayloadFault members tag) (there : ¬ LacksPayload members tag)
      (type : body.tag? = some tag) : Decided members tag (.ok (some body))

theorem lacksPayload_iff {members : Members} {tag : Tag} {key : String}
    (hkey : tag.payload? = some key) : LacksPayload members tag ↔ Lacks members key := by
  simp [LacksPayload, hkey]

theorem payloadFault_iff {members : Members} {tag : Tag} {key : String}
    (hkey : tag.payload? = some key) (hversion : tag ≠ .version) :
    PayloadFault members tag ↔ ∃ j, Holds members key j ∧ ¬ tag.Fits j := by
  constructor
  · intro h
    cases h with
    | payload consulted found wrong =>
      rw [hkey] at consulted
      cases consulted
      exact ⟨_, found, wrong⟩
    | ui => exact absurd rfl hversion
  · rintro ⟨j, found, wrong⟩
    exact .payload hkey found wrong

theorem versionFault_iff {members : Members} :
    PayloadFault members .version ↔ ∃ tool, Holds members "terraform" tool ∧
      (¬ Codec.text.Reads tool ∨ ∃ j, Holds members "ui" j ∧ ¬ Codec.text.Reads j) := by
  constructor
  · intro h
    cases h with
    | payload consulted found wrong =>
      cases consulted
      exact ⟨_, found, .inl wrong⟩
    | ui consulted found wrong => exact ⟨_, consulted, .inr ⟨_, found, wrong⟩⟩
  · rintro ⟨tool, htool, wrong | ⟨j, found, wrong⟩⟩
    · exact .payload rfl htool wrong
    · exact .ui htool found wrong

theorem decided_readOne {α : Type} {codec : Codec α} {key : String} {body : α → Body} {tag : Tag}
    (members : Members) (hkey : tag.payload? = some key) (hversion : tag ≠ .version)
    (hfits : ∀ j, tag.Fits j ↔ codec.Reads j) (htype : ∀ a, (body a).tag? = some tag) :
    Decided members tag (readOne codec key body members) := by
  have howned := owned_cases codec members key
  unfold readOne
  generalize owned codec key members = outcome at howned
  cases howned with
  | lacking hlacks =>
    refine .lacking ?_ ((lacksPayload_iff hkey).2 hlacks)
    rw [payloadFault_iff hkey hversion]
    rintro ⟨j, found, -⟩
    exact not_lacks_of_holds found hlacks
  | @read j a found hread =>
    refine .read ?_ ?_ (htype a)
    · rw [payloadFault_iff hkey hversion]
      rintro ⟨i, hi, wrong⟩
      rw [holds_unique hi found, hfits] at wrong
      exact wrong ⟨a, hread⟩
    · rw [lacksPayload_iff hkey]
      exact not_lacks_of_holds found
  | faulty found wrong =>
    refine .faulty ((payloadFault_iff hkey hversion).2 ⟨_, found, ?_⟩)
    rw [hfits]
    exact wrong

theorem decided_readVersion (members : Members) :
    Decided members .version (readVersion members) := by
  have htool := owned_cases Codec.text members "terraform"
  have hui := owned_cases Codec.text members "ui"
  unfold readVersion
  generalize owned Codec.text "terraform" members = outcome at htool
  generalize owned Codec.text "ui" members = other at hui
  cases htool with
  | lacking hlacks =>
    refine .lacking ?_ ((lacksPayload_iff rfl).2 hlacks)
    rw [versionFault_iff]
    rintro ⟨tool, found, -⟩
    exact not_lacks_of_holds found hlacks
  | faulty found wrong => exact .faulty (versionFault_iff.2 ⟨_, found, .inl wrong⟩)
  | @read j a found hread =>
    have hthere : ¬ LacksPayload members .version := by
      rw [lacksPayload_iff rfl]
      exact not_lacks_of_holds found
    -- The payload is sound, so a fault can only be one of the second member.
    have hfault : PayloadFault members .version → ∃ i, Holds members "ui" i ∧
        ¬ Codec.text.Reads i := by
      intro h
      obtain ⟨tool, htool, wrong | hsecond⟩ := versionFault_iff.1 h
      · rw [holds_unique htool found] at wrong
        exact absurd ⟨a, hread⟩ wrong
      · exact hsecond
    cases hui with
    | lacking hlacks =>
      refine .read ?_ hthere rfl
      intro h
      obtain ⟨i, hi, -⟩ := hfault h
      exact not_lacks_of_holds hi hlacks
    | @read u b hu hread =>
      refine .read ?_ hthere rfl
      intro h
      obtain ⟨i, hi, wrong⟩ := hfault h
      rw [holds_unique hi hu] at wrong
      exact wrong ⟨b, hread⟩
    | faulty hu wrong => exact .faulty (versionFault_iff.2 ⟨_, found, .inr ⟨_, hu, wrong⟩⟩)

theorem decided_log (members : Members) : Decided members .log (.ok (some .log)) := by
  refine .read ?_ ?_ rfl
  · intro h
    cases h with
    | payload consulted _ _ => cases consulted
  · rintro ⟨key, hkey, -⟩
    cases hkey

theorem decided_reader (members : Members) (tag : Tag) :
    ∃ read, Dict.get? tag.name readers = some read ∧ Decided members tag (read members) := by
  cases tag with
  | version => exact ⟨_, rfl, decided_readVersion members⟩
  | log => exact ⟨_, rfl, decided_log members⟩
  | diagnostic => exact ⟨_, rfl, decided_readOne members rfl nofun (fun _ => .rfl) fun _ => rfl⟩
  | listStart => exact ⟨_, rfl, decided_readOne members rfl nofun (fun _ => .rfl) fun _ => rfl⟩
  | listResourceFound =>
    exact ⟨_, rfl, decided_readOne members rfl nofun (fun _ => .rfl) fun _ => rfl⟩
  | listComplete => exact ⟨_, rfl, decided_readOne members rfl nofun (fun _ => .rfl) fun _ => rfl⟩
  | initOutput => exact ⟨_, rfl, decided_readOne members rfl nofun (fun _ => .rfl) fun _ => rfl⟩

theorem get?_readers_of_ne {type : String} (h : ∀ tag : Tag, tag.name ≠ type) :
    Dict.get? type readers = none := by
  have hversion := h .version
  have hlog := h .log
  have hdiagnostic := h .diagnostic
  have hstart := h .listStart
  have hfound := h .listResourceFound
  have hcomplete := h .listComplete
  have houtput := h .initOutput
  simp only [Tag.name] at hversion hlog hdiagnostic hstart hfound hcomplete houtput
  simp [readers, Dict.get?, hversion, hlog, hdiagnostic, hstart, hfound, hcomplete, houtput]

theorem lineType_of_typed {members : Members} {tag : Tag} (h : Typed members tag) :
    lineType members = tag.name := by
  unfold Typed at h
  simp [lineType, h]

theorem typed_of_lineType {members : Members} {tag : Tag} (h : tag.name = lineType members) :
    Typed members tag := by
  have hname : tag.name ≠ "" := by cases tag <;> decide
  unfold lineType at h
  split at h
  · next type htype =>
    rw [Typed, htype, h]
  · exact absurd h hname

theorem typed_unique {members : Members} {tag other : Tag} (h : Typed members tag)
    (ho : Typed members other) : tag = other := by
  have hname : tag.name = other.name := (lineType_of_typed h).symm.trans (lineType_of_typed ho)
  cases tag <;> cases other <;> first | rfl | simp [Tag.name] at hname

theorem readBody_of_untyped {members : Members} (h : ∀ tag, ¬ Typed members tag) :
    readBody members = .ok (.unknown (lineType members)) := by
  have hnone : Dict.get? (lineType members) readers = none :=
    get?_readers_of_ne fun tag hname => h tag (typed_of_lineType hname)
  simp [readBody, hnone]

theorem readBody_of_typed {members : Members} {tag : Tag}
    {read : Members → Except Fault (Option Body)} (h : Typed members tag)
    (hread : Dict.get? tag.name readers = some read) :
    readBody members = (read members).map fun body => body.getD (.unknown tag.name) := by
  simp only [readBody, lineType_of_typed h, hread]
  cases read members <;> rfl

/-- What becomes of an object, by its members. -/
inductive Classified (members : Members) : Except Fault Line → Prop
  | misshapen {fault : Fault} (h : Misshapen members) : Classified members (.error fault)
  | unknown {line : Line} (sound : ¬ Misshapen members) (h : Unrecognized members)
      (type : line.body.tag? = none) : Classified members (.ok line)
  | known {tag : Tag} {line : Line} (sound : ¬ Misshapen members) (h : ¬ Unrecognized members)
      (typed : Typed members tag) (type : line.body.tag? = some tag) : Classified members (.ok line)

theorem classified_ofMembers (members : Members) : Classified members (Line.ofMembers members) := by
  unfold Line.ofMembers
  cases hheader : readHeader members with
  | error fault =>
    have hfault : HeaderFault members := by
      by_contra hsound
      obtain ⟨header, h⟩ := exists_readHeader.2 hsound
      rw [hheader] at h
      cases h
    exact .misshapen (.inl hfault)
  | ok header =>
    have hsound : ¬ HeaderFault members := exists_readHeader.1 ⟨header, hheader⟩
    by_cases htyped : ∃ tag, Typed members tag
    · obtain ⟨tag, htag⟩ := htyped
      -- The type is the only one, so what is said of some type is said of this one.
      have hmisshapen : Misshapen members ↔ PayloadFault members tag := by
        constructor
        · rintro (hfault | ⟨other, hother, hfault⟩)
          · exact absurd hfault hsound
          · rwa [typed_unique htag hother]
        · intro hfault
          exact .inr ⟨tag, htag, hfault⟩
      have hunrecognized : Unrecognized members ↔ LacksPayload members tag := by
        constructor
        · rintro (hnone | ⟨other, hother, hlacks⟩)
          · exact absurd htag (hnone tag)
          · rwa [typed_unique htag hother]
        · intro hlacks
          exact .inr ⟨tag, htag, hlacks⟩
      obtain ⟨read, hread, hdecided⟩ := decided_reader members tag
      rw [readBody_of_typed htag hread]
      generalize read members = outcome at hdecided
      cases hdecided with
      | faulty wrong => exact .misshapen (hmisshapen.2 wrong)
      | lacking sound missing =>
        exact .unknown (mt hmisshapen.1 sound) (hunrecognized.2 missing) rfl
      | read sound there type =>
        exact .known (mt hmisshapen.1 sound) (mt hunrecognized.1 there) htag type
    · have huntyped : ∀ tag, ¬ Typed members tag := fun tag htag => htyped ⟨tag, htag⟩
      rw [readBody_of_untyped huntyped]
      refine .unknown ?_ (.inl huntyped) rfl
      rintro (hfault | ⟨tag, htag, -⟩)
      · exact hsound hfault
      · exact huntyped tag htag

theorem ofShape_error {α : Type} (fault : Fault) :
    ofShape (.error fault : Except Fault α) = .error (.shape fault) := rfl

theorem ofShape_ok {α : Type} (a : α) : ofShape (.ok a) = .ok a := rfl

theorem classes_of_classified {members : Members} {outcome : Except Fault Line}
    (h : Classified members outcome) :
    ((∃ fault, ofShape outcome = .error (.shape fault)) ↔ Misshapen members) ∧
    ((∃ line, ofShape outcome = .ok line ∧ line.body.tag? = none) ↔
      ¬ Misshapen members ∧ Unrecognized members) ∧
    (∀ tag, (∃ line, ofShape outcome = .ok line ∧ line.body.tag? = some tag) ↔
      ¬ Misshapen members ∧ ¬ Unrecognized members ∧ Typed members tag) ∧
    ((∃ fault, ofShape outcome = .error (.shape fault)) ∨
      ∃ line, ofShape outcome = .ok line) := by
  cases h with
  | misshapen h => simp [ofShape_error, h, Error.shape]
  | unknown sound h type => simp [ofShape_ok, sound, h, type]
  | @known tag line sound h typed type =>
    have htyped (other : Tag) : tag = other ↔ Typed members other := by
      constructor
      · rintro rfl
        exact typed
      · exact typed_unique typed
    simp [ofShape_ok, sound, h, type, htyped]

/-- The classes of outcomes: malformed exactly without an object, a fault of
shape exactly for a misshapen object, and otherwise a line, of unknown type
exactly when it is not recognized and else of its registered type. -/
theorem line_classes (bytes : List UInt8) :
    (Line.ofBytes bytes = .error .malformedInput ↔
      ¬ ∃ members, Json.read bytes = some (.obj members)) ∧
    ∀ members, Json.read bytes = some (.obj members) →
      ((∃ fault, Line.ofBytes bytes = .error (.shape fault)) ↔ Misshapen members) ∧
      ((∃ line, Line.ofBytes bytes = .ok line ∧ line.body.tag? = none) ↔
        ¬ Misshapen members ∧ Unrecognized members) ∧
      (∀ tag, (∃ line, Line.ofBytes bytes = .ok line ∧ line.body.tag? = some tag) ↔
        ¬ Misshapen members ∧ ¬ Unrecognized members ∧ Typed members tag) ∧
      ((∃ fault, Line.ofBytes bytes = .error (.shape fault)) ∨
        ∃ line, Line.ofBytes bytes = .ok line) := by
  have hobject : ∀ members, Json.read bytes = some (.obj members) →
      Line.ofBytes bytes = ofShape (Line.ofMembers members) := by
    intro members h
    simp [Line.ofBytes, h]
  constructor
  · constructor
    · rintro h ⟨members, hmembers⟩
      rw [hobject members hmembers] at h
      cases hline : Line.ofMembers members with
      | error fault => simp [hline, ofShape_error, Error.shape] at h
      | ok line => simp [hline, ofShape_ok] at h
    · intro h
      unfold Line.ofBytes
      split
      · next members hmembers => exact absurd ⟨members, hmembers⟩ h
      · rfl
  · intro members hmembers
    rw [hobject members hmembers]
    exact classes_of_classified (classified_ofMembers members)

/-- Without its payload a version line is unknown, whatever else is in it. -/
example : (Line.ofMembers [("terraform", .null), ("type", .str "version"), ("ui", .bool true)]).map
    (·.body) = .ok (.unknown "version") := rfl

end Log
end PlanWire
