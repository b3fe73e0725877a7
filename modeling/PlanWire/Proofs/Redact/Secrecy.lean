import PlanWire.Plan.Validation
import PlanWire.Proofs.Redact.Modules

/-!
# What a redacted plan keeps secret

Two values are alike under a mask when they differ only where the mask hides
them, and two plans are alike when they differ only in what a redaction
replaces. Redacting with a constant makes one plan of two plans that are alike:
the outcome says nothing about the values replaced.
-/

set_option autoImplicit false

namespace PlanWire

namespace Plan

def beforeMask? (p : Plan) (address : String) : Option Json :=
  (p.resourceChange? address).bind fun rc => rc.change.bind (·.beforeSensitive)

def afterMask? (p : Plan) (address : String) : Option Json :=
  (p.resourceChange? address).bind fun rc => rc.change.bind (·.afterSensitive)

/-- The configuration of the root module declares the variable sensitive. -/
def DeclaredSensitive (p : Plan) (name : String) : Prop :=
  ∃ config root v, p.config = some config ∧ config.rootModule = some root ∧
    Dict.get? name root.declarations = some v ∧ v.sensitive = true

end Plan

namespace Redact

mutual

/-- Values that differ only where the mask hides them. -/
inductive Alike : Json → Json → Json → Prop
  | hidden (a b : Json) : Alike (.bool true) a b
  | arr {masks items others : List Json} (h : AlikeItems masks items others) :
      Alike (.arr masks) (.arr items) (.arr others)
  | obj {masks members others : List (String × Json)} (h : AlikeMembers masks members others) :
      Alike (.obj masks) (.obj members) (.obj others)
  | same (mask j : Json) : Alike mask j j

inductive AlikeItems : List Json → List Json → List Json → Prop
  | nil (masks : List Json) : AlikeItems masks [] []
  | unmasked (items : List Json) : AlikeItems [] items items
  | cons {mask a b : Json} {masks items others : List Json} (first : Alike mask a b)
      (rest : AlikeItems masks items others) : AlikeItems (mask :: masks) (a :: items) (b :: others)

inductive AlikeMembers : List (String × Json) → List (String × Json) → List (String × Json) → Prop
  | nil (masks : List (String × Json)) : AlikeMembers masks [] []
  | masked {key : String} {mask a b : Json} {masks members others : List (String × Json)}
      (found : Dict.get? key masks = some mask) (first : Alike mask a b)
      (rest : AlikeMembers masks members others) :
      AlikeMembers masks ((key, a) :: members) ((key, b) :: others)
  | unmasked {key : String} {j : Json} {masks members others : List (String × Json)}
      (missing : Dict.get? key masks = none) (rest : AlikeMembers masks members others) :
      AlikeMembers masks ((key, j) :: members) ((key, j) :: others)

end

/-- Both absent, or both there and alike; without a mask they are equal. -/
inductive AlikeOption : Option Json → Option Json → Option Json → Prop
  | same (mask j : Option Json) : AlikeOption mask j j
  | masked {mask a b : Json} (h : Alike mask a b) : AlikeOption (some mask) (some a) (some b)

inductive AlikeAttributes : Option Json → Dict Json → Dict Json → Prop
  | same (mask : Option Json) (d : Dict Json) : AlikeAttributes mask d d
  | masked {mask : Json} {d e : Dict Json} (names : d.keys = e.keys)
      (h : Alike mask (.obj d) (.obj e)) : AlikeAttributes (some mask) d e

def Entrywise {α : Type} (related : String → α → α → Prop) (d e : Dict α) : Prop :=
  List.Forall₂ (fun a b => a.1 = b.1 ∧ related a.1 a.2 b.2) d e

structure AlikeChanges (c d : Change) : Prop where
  rest : { d with before := c.before, after := c.after } = c
  before : AlikeOption c.beforeSensitive c.before d.before
  after : AlikeOption c.afterSensitive c.after d.after

structure AlikeResourceChanges (c d : Plan.ResourceChange) : Prop where
  rest : { d with change := c.change } = c
  change : Option.Rel AlikeChanges c.change d.change

/-- Outputs that agree but for the value of a sensitive one, which either may
lack. -/
structure AlikeOutputs (o p : State.Output) : Prop where
  rest : { p with value := o.value } = o
  value : o.sensitive = true ∨ o.value = p.value

structure AlikeResources (mask : Option Json) (r s : State.Resource) : Prop where
  rest : { s with attributes := r.attributes } = r
  attributes : AlikeAttributes mask r.attributes s.attributes

def AlikeUnder (maskOf : String → Option Json) (r s : State.Resource) : Prop :=
  AlikeResources (maskOf r.address) r s

structure RelatedValues (related : State.Resource → State.Resource → Prop)
    (v w : State.Values) : Prop where
  outputs : Entrywise (fun _ => AlikeOutputs) v.outputs w.outputs
  rootModule : Option.Rel (RelatedModules related) v.rootModule w.rootModule

structure RelatedStates (related : State.Resource → State.Resource → Prop)
    (s t : State) : Prop where
  rest : { t with values := s.values } = s
  values : Option.Rel (RelatedValues related) s.values t.values

/-- Plans that agree but for the values that a redaction replaces: those of
variables declared sensitive, those before and after a change under the masks
of the change, attributes under the mask of the first resource change with the
address of the resource, and sensitive outputs. -/
structure AlikePlans (p q : Plan) : Prop where
  rest : { q with
    variableValues := p.variableValues, plannedValues := p.plannedValues
    resourceDrift := p.resourceDrift, resourceChanges := p.resourceChanges
    outputChanges := p.outputChanges, priorState := p.priorState } = p
  variableValues : Entrywise (fun name v w => p.DeclaredSensitive name ∨ v = w)
    p.variableValues q.variableValues
  drift : List.Forall₂ AlikeResourceChanges p.resourceDrift q.resourceDrift
  changes : List.Forall₂ AlikeResourceChanges p.resourceChanges q.resourceChanges
  outputs : Entrywise (fun _ => AlikeChanges) p.outputChanges q.outputChanges
  planned : Option.Rel (RelatedValues (AlikeUnder p.afterMask?)) p.plannedValues q.plannedValues
  prior : Option.Rel (RelatedStates (AlikeUnder p.beforeMask?)) p.priorState q.priorState

section Constant

variable (replacement : Json)

mutual

theorem value_eq : ∀ {mask a b : Json}, Alike mask a b →
    value (fun _ => replacement) a mask = value (fun _ => replacement) b mask
  | _, _, _, .hidden a b => by simp [value]
  | _, _, _, .arr h => by simp only [value, valueItems_eq h]
  | _, _, _, .obj h => by simp only [value, valueMembers_eq h]
  | _, _, _, .same _ _ => rfl

theorem valueItems_eq : ∀ {masks items others : List Json}, AlikeItems masks items others →
    valueItems (fun _ => replacement) items masks = valueItems (fun _ => replacement) others masks
  | _, _, _, .nil _ => rfl
  | _, _, _, .unmasked _ => rfl
  | _, _, _, .cons first rest => by simp only [valueItems, value_eq first, valueItems_eq rest]

theorem valueMembers_eq : ∀ {masks members others : List (String × Json)},
    AlikeMembers masks members others →
    valueMembers (fun _ => replacement) members masks =
      valueMembers (fun _ => replacement) others masks
  | _, _, _, .nil _ => rfl
  | _, _, _, .masked found first rest => by
    simp only [valueMembers, found, value_eq first, valueMembers_eq rest]
  | _, _, _, .unmasked missing rest => by simp only [valueMembers, missing, valueMembers_eq rest]

end

theorem optionalValue_eq {mask a b : Option Json} (h : AlikeOption mask a b) :
    optionalValue (fun _ => replacement) a mask = optionalValue (fun _ => replacement) b mask := by
  cases h with
  | same => rfl
  | masked h => exact congrArg some (value_eq replacement h)

theorem attributes_obj (f : Sanitizer) (masks : List (String × Json)) (d : Dict Json) :
    attributes f (.obj masks) d = valueMembers f d masks := by
  induction d with
  | nil => rfl
  | cons entry rest ih =>
    rw [valueMembers, ← ih]
    rfl

theorem attributes_eq {mask : Json} {d e : Dict Json} (names : d.keys = e.keys)
    (h : Alike mask (.obj d) (.obj e)) :
    attributes (fun _ => replacement) mask d = attributes (fun _ => replacement) mask e := by
  cases h with
  | hidden =>
    have hmap (d : Dict Json) : attributes (fun _ => replacement) (.bool true) d =
        d.keys.map fun name => (name, replacement) := by
      simp [attributes, attributeValue, Dict.keys]
    rw [hmap, hmap, names]
  | obj h => rw [attributes_obj, attributes_obj, valueMembers_eq replacement h]
  | same => rfl

theorem resource_eq {mask : Option Json} {r s : State.Resource} (h : AlikeResources mask r s) :
    resource (fun _ => replacement) mask r = resource (fun _ => replacement) mask s := by
  obtain ⟨hrest, hattr⟩ := h
  generalize ha : r.attributes = d at hattr
  generalize hb : s.attributes = e at hattr
  cases hattr with
  | same =>
    have hrs : s = r := by rw [← hrest, ha, ← hb]
    rw [hrs]
  | masked names h =>
    simp only [resource, ha, hb, attributes_eq replacement names h]
    rw [← hrest]

theorem change_eq {c d : Change} (h : AlikeChanges c d) :
    change (fun _ => replacement) c = change (fun _ => replacement) d := by
  have hb := optionalValue_eq replacement h.before
  have ha := optionalValue_eq replacement h.after
  have hmb : c.beforeSensitive = d.beforeSensitive := by rw [← h.rest]
  have hma : c.afterSensitive = d.afterSensitive := by rw [← h.rest]
  simp only [change]
  rw [hb, ha, hmb, hma, ← h.rest]

theorem resourceChange_eq {c d : Plan.ResourceChange} (h : AlikeResourceChanges c d) :
    resourceChange (fun _ => replacement) c = resourceChange (fun _ => replacement) d := by
  simp only [resourceChange]
  rw [option_map_eq h.change fun _ _ => change_eq replacement, ← h.rest]

theorem output_eq {o p : State.Output} (h : AlikeOutputs o p) :
    output (fun _ => replacement) o = output (fun _ => replacement) p := by
  have hs : o.sensitive = p.sensitive := by rw [← h.rest]
  rcases h.value with hsensitive | hvalue
  · simp only [output, ← hs, hsensitive, if_true]
    rw [← h.rest]
  · have hop : p = o := by rw [← h.rest, hvalue]
    rw [hop]

theorem outputs_eq {d e : Dict State.Output} (h : Entrywise (fun _ => AlikeOutputs) d e) :
    outputs (fun _ => replacement) d = outputs (fun _ => replacement) e :=
  map_eq_map (h.imp fun _ _ hab => Prod.ext hab.1 (output_eq replacement hab.2))

theorem values_congr {related : State.Resource → State.Resource → Prop}
    {g : State.Resource → State.Resource} (hg : ∀ r s, related r s → g r = g s)
    {v w : State.Values} (h : RelatedValues related v w) :
    (⟨outputs (fun _ => replacement) v.outputs, v.rootModule.map (mapModule g)⟩ : State.Values) =
      ⟨outputs (fun _ => replacement) w.outputs, w.rootModule.map (mapModule g)⟩ := by
  rw [outputs_eq replacement h.outputs,
    option_map_eq h.rootModule fun _ _ => mapModule_congr hg]

end Constant

theorem mask_eq {c d : Plan.ResourceChange} (h : AlikeResourceChanges c d) (side : Side) :
    side.mask c = side.mask d := by
  have hchange := h.change
  simp only [Side.mask]
  generalize c.change = x, d.change = y at hchange
  cases hchange with
  | none => rfl
  | some hab => cases side <;> rw [← hab.rest] <;> rfl

theorem isSensitive_iff {p : Plan} {root : Config.Module}
    (hroot : p.config.bind (·.rootModule) = some root) (name : String) :
    isSensitive root.declarations name = true ↔ p.DeclaredSensitive name := by
  obtain ⟨config, hconfig, hmodule⟩ := Option.bind_eq_some_iff.1 hroot
  rw [isSensitive]
  constructor
  · intro h
    cases hdeclared : Dict.get? name root.declarations with
    | none => simp [hdeclared] at h
    | some v =>
      rw [hdeclared] at h
      exact ⟨config, root, v, hconfig, hmodule, hdeclared, h⟩
  · rintro ⟨_, _, v, hother, hothers, hdeclared, hsensitive⟩
    obtain rfl := Option.some.inj (hconfig.symm.trans hother)
    obtain rfl := Option.some.inj (hmodule.symm.trans hothers)
    simp only [hdeclared, hsensitive]

/-- Alike changes have the same addresses, so the first one with an address is
at the same place and brings the same mask. -/
theorem maskFor_eq {cs ds : List Plan.ResourceChange} (h : List.Forall₂ AlikeResourceChanges cs ds)
    (side : Side) : maskFor cs side = maskFor ds side := by
  funext address
  induction h with
  | nil => rfl
  | @cons c d cs ds hcd _ ih =>
    have ha : c.address = d.address := by rw [← hcd.rest]
    by_cases hd : d.address = address
    · simp [maskFor, ha, hd, mask_eq hcd side]
    · simpa [maskFor, ha, hd] using ih

section Constant

variable (replacement : Json)

theorem values_eq {cs ds : List Plan.ResourceChange} {side : Side} {v w : State.Values}
    (hc : List.Forall₂ AlikeResourceChanges cs ds)
    (h : RelatedValues (AlikeUnder (maskFor cs side)) v w) :
    values (fun _ => replacement) cs side v = values (fun _ => replacement) ds side w := by
  have hresource (r s : State.Resource) (hrs : AlikeUnder (maskFor cs side) r s) :
      resource (fun _ => replacement) (maskFor cs side r.address) r =
        resource (fun _ => replacement) (maskFor cs side s.address) s := by
    have haddress : s.address = r.address := by rw [← hrs.rest]
    rw [haddress]
    exact resource_eq replacement hrs
  have hvalues := values_congr replacement hresource h
  simpa only [values, moduleUnder, ← maskFor_eq hc side] using hvalues

theorem planVariables_eq {p q : Plan} (hconfig : p.config = q.config)
    (h : Entrywise (fun name v w => p.DeclaredSensitive name ∨ v = w)
      p.variableValues q.variableValues) :
    planVariables (fun _ => replacement) p = planVariables (fun _ => replacement) q := by
  have hempty : p.variableValues.isEmpty = q.variableValues.isEmpty := by
    generalize p.variableValues = d, q.variableValues = e at h
    cases h <;> rfl
  simp only [planVariables, declaredVariables, ← hempty, ← hconfig]
  cases hroot : p.config.bind (·.rootModule) with
  | none => rfl
  | some root =>
    have hvalues : variableValues (fun _ => replacement) root.declarations p.variableValues =
        variableValues (fun _ => replacement) root.declarations q.variableValues := by
      refine map_eq_map (h.imp fun a b hab => ?_)
      obtain ⟨hname, hdeclared | hvalue⟩ := hab
      · have hsensitive := (isSensitive_iff hroot a.1).2 hdeclared
        simp only [← hname, hsensitive, planVariable, if_true]
      · rw [Prod.ext hname hvalue]
    split
    · rfl
    · exact congrArg Except.ok hvalues

theorem state_eq {cs ds : List Plan.ResourceChange} {side : Side} {s t : State}
    (hc : List.Forall₂ AlikeResourceChanges cs ds)
    (h : RelatedStates (AlikeUnder (maskFor cs side)) s t) :
    { s with values := s.values.map (values (fun _ => replacement) cs side) } =
      { t with values := t.values.map (values (fun _ => replacement) ds side) } := by
  rw [option_map_eq h.values fun _ _ => values_eq replacement hc, ← h.rest]

/-- Redaction with a constant hides everything in which alike plans differ:
it fails for both, or it makes the same plan of both, and the same goes to the
log. -/
theorem plan_secrecy {p q : Plan} (h : AlikePlans p q) :
    plan (fun _ => replacement) p = plan (fun _ => replacement) q ∧
      logged Plan.codec.encode (plan (fun _ => replacement) p) =
        logged Plan.codec.encode (plan (fun _ => replacement) q) := by
  have hconfig : p.config = q.config := by rw [← h.rest]
  have hplan : plan (fun _ => replacement) p = plan (fun _ => replacement) q := by
    have houtputs : p.outputChanges.mapValues (change fun _ => replacement) =
        q.outputChanges.mapValues (change fun _ => replacement) :=
      map_eq_map (h.outputs.imp fun _ _ hab => Prod.ext hab.1 (change_eq replacement hab.2))
    have hplanned : Option.Rel (RelatedValues (AlikeUnder (maskFor p.resourceChanges .after)))
        p.plannedValues q.plannedValues := h.planned
    have hprior : Option.Rel (RelatedStates (AlikeUnder (maskFor p.resourceChanges .before)))
        p.priorState q.priorState := h.prior
    simp only [plan]
    rw [planVariables_eq replacement hconfig h.variableValues,
      option_map_eq hplanned fun _ _ => values_eq replacement h.changes,
      map_eq_map (h.drift.imp fun _ _ => resourceChange_eq replacement),
      map_eq_map (h.changes.imp fun _ _ => resourceChange_eq replacement), houtputs,
      option_map_eq hprior fun _ _ => state_eq replacement h.changes, ← h.rest]
  exact ⟨hplan, by rw [hplan]⟩

end Constant

/-- A plan with a secret in every place that is redacted. The variable and the
outputs may also lack their value. -/
def planHolding (secret : Json) (given : Option Json) : Plan where
  formatVersion := "1.2"
  toolVersion := ""
  variableValues := [("password", ⟨given⟩)]
  plannedValues := some (valuesHolding)
  resourceDrift := [changed (.arr [secret, .null]) (.arr [.bool true])]
  resourceChanges := [changed (.obj [("password", secret)]) (.obj [("password", .bool true)])]
  outputChanges := [("url", changing (.obj [("host", .null), ("key", secret)])
    (.obj [("host", .bool false), ("key", .bool true)]))]
  priorState := some ⟨"1.0", "", some (valuesHolding), none⟩
  config := some ⟨[], some ⟨[], [], [], [("password", ⟨none, "", true⟩)]⟩⟩
  relevantAttributes := []
  checks := none
  timestamp := ""
  errored := false
  applyable := true
  complete := true
where
  changing (object mask : Json) : Change :=
    ⟨[.update], some object, some object, none, some mask, some mask, none, none, ""⟩
  changed (object mask : Json) : Plan.ResourceChange :=
    ⟨"db.main", "", "", .managed, "db", "main", none, "", some (changing object mask), "", ""⟩
  valuesHolding : State.Values :=
    ⟨[("url", ⟨true, given, none⟩)], some ⟨[], "", [⟨[⟨"db.main", .managed, "db", "main", none, "", 1,
      [("password", secret), ("size", .null)], none, [], false, ""⟩], "module.app", []⟩]⟩⟩

theorem alike_planHolding (a b : Json) (x y : Option Json) :
    AlikePlans (planHolding a x) (planHolding b y) := by
  have hpassword : Alike (.obj [("password", .bool true)]) (.obj [("password", a)])
      (.obj [("password", b)]) := .obj (.masked rfl (.hidden a b) (.nil _))
  have hchanged {o p mask : Json} (h : Alike mask o p) : AlikeResourceChanges
      (planHolding.changed o mask) (planHolding.changed p mask) :=
    ⟨rfl, .some ⟨rfl, .masked h, .masked h⟩⟩
  have hvalues (side : Side) : RelatedValues (AlikeUnder (maskFor (planHolding a x).resourceChanges side))
      (planHolding.valuesHolding a x) (planHolding.valuesHolding b y) := by
    have hattributes : AlikeAttributes (maskFor (planHolding a x).resourceChanges side "db.main")
        [("password", a), ("size", .null)] [("password", b), ("size", .null)] := by
      cases side <;>
        exact .masked rfl (.obj (.masked rfl (.hidden a b) (.unmasked rfl (.nil _))))
    exact ⟨.cons ⟨rfl, rfl, .inl rfl⟩ .nil,
      .some (.node .nil (.cons (.node (.cons ⟨rfl, hattributes⟩ .nil) .nil) .nil))⟩
  have hkey : Alike (.obj [("host", .bool false), ("key", .bool true)])
      (.obj [("host", .null), ("key", a)]) (.obj [("host", .null), ("key", b)]) :=
    .obj (.masked rfl (.same _ _) (.masked rfl (.hidden a b) (.nil _)))
  exact {
    rest := rfl
    variableValues := .cons ⟨rfl, .inl ⟨_, _, _, rfl, rfl, rfl, rfl⟩⟩ .nil
    drift := .cons (hchanged (.arr (.cons (.hidden a b) (.unmasked _)))) .nil
    changes := .cons (hchanged hpassword) .nil
    outputs := .cons ⟨rfl, rfl, .masked hkey, .masked hkey⟩ .nil
    planned := .some (hvalues .after)
    prior := .some ⟨rfl, .some (hvalues .before)⟩ }

theorem plan_secrecy_of_password :
    AlikePlans (planHolding (.str "hunter2") none) (planHolding (.arr []) (some (.str "x"))) ∧
      plan (fun _ => .str "R") (planHolding (.str "hunter2") none) =
        plan (fun _ => .str "R") (planHolding (.arr []) (some (.str "x"))) :=
  have h := alike_planHolding (.str "hunter2") (.arr []) none (some (.str "x"))
  ⟨h, (plan_secrecy (.str "R") h).1⟩

end Redact
end PlanWire
