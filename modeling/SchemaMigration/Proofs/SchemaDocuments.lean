import SchemaMigration.Schema.Document
import SchemaMigration.Proofs.JsonReading
import SchemaMigration.Proofs.Keyed
import SchemaMigration.Proofs.Octets

/-!
# Schema documents are read back

Every schema is read back from its document, as text and from a file of octets (`Schema.document_loads_back`). Each
type has two lemmas: its JSON form is read back from its text (`ReadsBack`), and the value is read off that form. A
record is read off the object of its members, from which an option that is not set is absent (`fields?_ofMembers`).
-/

namespace SchemaMigration

/-! ## Taking apart what was put together -/

namespace Json

section

variable {α β : Type}

@[simp]
theorem text?_ofText (s : String) : text? (ofText s) = some s := rfl

@[simp]
theorem bool?_bool (b : Bool) : bool? (bool b) = some b := rfl

@[simp]
theorem required?_some (f : Json → Option α) (v : Json) : required? f (some v) = f v := rfl

@[simp]
theorem optional?_some (f : Json → Option α) (absent : α) (v : Json) : optional? f absent (some v) = f v := rfl

theorem uint32?_ofNat (n : UInt32) : uint32? (ofNat n.toNat) = some n := by
  have hne : Text.natText n.toNat ≠ [] := Nat.toDigits_ne_nil
  have hdigits : (Text.natText n.toNat).all Text.isDigit :=
    List.all_eq_true.2 fun c hc => Number.isDigit_of_mem_natText hc
  simp [uint32?, ofNat, hne, hdigits, Number.decimalValue_natText, n.toNat_lt]

theorem pair?_array {f : Json → Option α} {g : α → Json} (h : ∀ x, f (g x) = some x) (x y : α) :
    pair? f (array [g x, g y]) = some (x, y) := by
  simp [pair?, h]

theorem mapM_eq_some {f : α → Option β} {xs : List α} {g : α → β} (h : ∀ x ∈ xs, f x = some (g x)) :
    xs.mapM f = some (xs.map g) := by
  induction xs with
  | nil => rfl
  | cons x xs ih =>
    obtain ⟨hx, hxs⟩ := List.forall_mem_cons.1 h
    simp [List.mapM_cons, hx, ih hxs]

@[simp]
theorem list?_ofList {f : Json → Option α} {g : α → Json} (h : ∀ x, f (g x) = some x) (xs : List α) :
    list? f (ofList g xs) = some xs := by
  have hread : (xs.map g).mapM f = some (xs.map id) := by
    rw [List.mapM_map]
    exact mapM_eq_some fun x _ => h x
  rw [ofList, list?, hread, List.map_id]

/-- An option is absent, or there with its value, which is not `null`. -/
theorem optional?_nullable? {f : Json → Option α} {g : α → Json} (h : ∀ x, f (g x) = some x) (hnull : ∀ x, g x ≠ null)
    (x : Option α) : optional? (nullable? f) none (x.map g) = some x := by
  cases x with
  | none => rfl
  | some x =>
    rw [Option.map_some, optional?, nullable?, h]
    · rfl
    · exact hnull x

@[simp]
theorem list?_text (texts : List String) : list? text? (ofList ofText texts) = some texts :=
  list?_ofList text?_ofText texts

@[simp]
theorem optional?_text (s : Option String) : optional? (nullable? text?) none (s.map ofText) = some s :=
  optional?_nullable? text?_ofText (fun _ => nofun) s

/-- The members with one name are the values given under it. -/
theorem membersNamed_filterMap (name : String) (members : List (String × Option Json)) :
    membersNamed name (members.filterMap fun m => m.2.map fun v => (some m.1, v)) =
      (members.filter fun m => m.1 == name).filterMap Prod.snd := by
  rw [membersNamed, List.filterMap_filterMap, List.filterMap_filter]
  refine List.filterMap_congr fun m _ => ?_
  obtain ⟨n, value⟩ := m
  by_cases hn : n = name <;> cases value <;> simp [hn]

/-- The fields of an object are its members; what was left out is absent. -/
theorem fields?_ofMembers {names : List String} {members : List (String × Option Json)}
    (hnames : members.map Prod.fst = names) (hunique : names.Nodup) :
    fields? names (ofMembers members) = some (members.map Prod.snd) := by
  subst hnames
  have hkeys : KeysUnique Prod.fst members := hunique
  have htexts : (members.filterMap fun m => m.2.map fun v => (some m.1, v)).all (·.1.isSome) = true := by
    simp only [List.all_eq_true, List.mem_filterMap, Option.map_eq_some_iff]
    rintro _ ⟨_, -, _, -, rfl⟩
    rfl
  rw [ofMembers, fields?, if_pos htexts, List.mapM_map]
  refine mapM_eq_some fun m hm => ?_
  have hvalues := membersNamed_filterMap m.1 members
  rw [hkeys.filter_key, hkeys.withKey?_key hm] at hvalues
  obtain ⟨name, value⟩ := m
  rw [Function.comp_apply, hvalues]
  cases value <;> rfl

end

/-- A variant: its name alone, or an object with its content under its name. -/
def ofVariant (name : String) : Option Json → Json
  | none => ofText name
  | some content => object [(some name, content)]

theorem variant?_ofVariant (name : String) (content : Option Json) :
    variant? (ofVariant name content) = some (name, content) := by
  cases content <;> rfl

theorem readsBack_ofVariant (name : String) {content : Option Json} (h : ∀ v ∈ content, ReadsBack v) :
    ReadsBack (ofVariant name content) := by
  cases content with
  | none => exact .ofText name
  | some v => exact .object (List.forall_mem_singleton.2 rfl) (List.forall_mem_singleton.2 (h v rfl))

theorem readsBack_optional {α : Type} {f : α → Json} (h : ∀ x, ReadsBack (f x)) (x : Option α) :
    ∀ v ∈ x.map f, ReadsBack v := by
  intro v hv
  obtain ⟨x, -, rfl⟩ := Option.map_eq_some_iff.1 hv
  exact h x

end Json

open Json (ReadsBack ofNat ofText ofList ofVariant)

/-! ## Columns -/

namespace ColumnType

/-- The content of the type's variant. -/
def content? : ColumnType → Option Json
  | integer _ n | length _ n => some (ofNat n.toNat)
  | decimal p s | float _ (some (p, s)) => some (.array [ofNat p.toNat, ofNat s.toNat])
  | float _ none => some .null
  | choice _ options => some (ofList ofText options)
  | text _ | blob _ | temporal _ | json => none

theorem toJson_eq (type : ColumnType) : type.toJson = ofVariant type.tag type.content? := by
  cases type with
  | float _ p => cases p <;> rfl
  | _ => rfl

theorem readsBack_toJson (type : ColumnType) : ReadsBack type.toJson := by
  have hpair : ∀ m n, ReadsBack (.array [ofNat m, ofNat n]) := fun m n =>
    .array (List.forall_mem_cons.2 ⟨.ofNat m, List.forall_mem_singleton.2 (.ofNat n)⟩)
  rw [toJson_eq]
  refine Json.readsBack_ofVariant _ fun v hv => ?_
  unfold content? at hv
  split at hv <;> cases hv
  · exact .ofNat _
  · exact .ofNat _
  · exact hpair _ _
  · exact hpair _ _
  · exact .null
  · exact .ofList .ofText _

@[simp]
theorem ofJson?_toJson (type : ColumnType) : ofJson? type.toJson = some type := by
  have hpair : ∀ p s : UInt32, Json.pair? Json.uint32? (.array [ofNat p.toNat, ofNat s.toNat]) = some (p, s) :=
    Json.pair?_array Json.uint32?_ofNat
  rw [toJson_eq, ofJson?, Json.variant?_ofVariant]
  cases type with
  | integer size n =>
    have hread := congrArg (Option.map (integer size)) (Json.uint32?_ofNat n)
    cases size <;> exact hread
  | decimal p s => exact congrArg (Option.map fun q => decimal q.1 q.2) (hpair p s)
  | float size p =>
    cases p with
    | none => cases size <;> rfl
    | some p =>
      have hread := congrArg (Option.map (float size ∘ some)) (hpair p.1 p.2)
      rw [← Option.map_map] at hread
      cases size <;> exact hread
  | length kind n =>
    have hread := congrArg (Option.map (length kind)) (Json.uint32?_ofNat n)
    cases kind <;> exact hread
  | text capacity => cases capacity <;> rfl
  | blob capacity => cases capacity <;> rfl
  | choice kind options =>
    have hread := congrArg (Option.map (choice kind)) (Json.list?_ofList Json.text?_ofText options)
    cases kind <;> exact hread
  | temporal kind => cases kind <;> rfl
  | json => rfl

end ColumnType

namespace DefaultValue

theorem readsBack_toJson (value : DefaultValue) : ReadsBack value.toJson := by
  cases value with
  | literal text =>
    have hcontent : ∀ v ∈ some (ofText text), ReadsBack v := by
      rintro v ⟨⟩
      exact .ofText text
    exact Json.readsBack_ofVariant "literal" hcontent
  | _ => exact .ofText _

@[simp]
theorem ofJson?_toJson (value : DefaultValue) : ofJson? value.toJson = some value := by
  cases value <;> rfl

end DefaultValue

namespace Column

theorem readsBack_toJson (c : Column) : ReadsBack c.toJson := by
  have hoption := Json.readsBack_optional ReadsBack.ofText
  refine .ofMembers ?_
  simp only [List.forall_mem_cons, Option.mem_some_iff, forall_eq']
  exact ⟨.ofText _, c.type.readsBack_toJson, .bool _, c.defaultValue.readsBack_toJson, .bool _, .bool _, .bool _,
    .bool _, .bool _, hoption _, hoption _, hoption _, nofun⟩

@[simp]
theorem ofJson?_toJson (c : Column) : ofJson? c.toJson = some c := by
  rw [toJson, ofJson?, Json.fields?_ofMembers]
  · rw [Option.bind_eq_bind, Option.bind_some]
    show (Json.required? Json.text? (some (ofText c.name))).bind _ = _
    rw [Json.optional?_text, Json.optional?_text, Json.optional?_text, Json.required?_some, Json.required?_some,
      ColumnType.ofJson?_toJson, Json.optional?_some _ _ c.defaultValue.toJson, DefaultValue.ofJson?_toJson]
    rfl
  · rfl
  · decide

end Column

/-! ## Indexes and foreign keys -/

theorem IndexKind.ofJson?_toJson (kind : IndexKind) : ofJson? kind.toJson = some kind := by
  cases kind <;> rfl

theorem IndexKind.readsBack_toJson (kind : IndexKind) : ReadsBack kind.toJson := by
  cases kind <;> exact .ofText _

namespace Index

theorem readsBack_toJson (i : Index) : ReadsBack i.toJson := by
  refine .ofMembers ?_
  simp only [List.forall_mem_cons, Option.mem_some_iff, forall_eq']
  exact ⟨.ofText _, i.kind.readsBack_toJson, .ofList .ofText _, nofun⟩

@[simp]
theorem ofJson?_toJson (i : Index) : ofJson? i.toJson = some i := by
  rw [toJson, ofJson?, Json.fields?_ofMembers]
  · simp [IndexKind.ofJson?_toJson]
  · rfl
  · decide

end Index

theorem ReferenceAction.ofJson?_toJson (action : ReferenceAction) : ofJson? action.toJson = some action := by
  cases action <;> rfl

theorem ReferenceAction.readsBack_toJson (action : ReferenceAction) : ReadsBack action.toJson := by
  cases action <;> exact .ofText _

namespace ForeignKey

theorem readsBack_toJson (k : ForeignKey) : ReadsBack k.toJson := by
  have hoption := Json.readsBack_optional ReferenceAction.readsBack_toJson
  refine .ofMembers ?_
  simp only [List.forall_mem_cons, Option.mem_some_iff, forall_eq']
  exact ⟨.ofText _, .ofList .ofText _, .ofText _, .ofList .ofText _, hoption _, hoption _, nofun⟩

@[simp]
theorem ofJson?_toJson (k : ForeignKey) : ofJson? k.toJson = some k := by
  have hoption := Json.optional?_nullable? ReferenceAction.ofJson?_toJson fun action => by cases action <;> nofun
  rw [toJson, ofJson?, Json.fields?_ofMembers]
  · simp [hoption]
  · rfl
  · decide

end ForeignKey

/-! ## Tables and schemas -/

namespace Table

theorem readsBack_toJson (t : Table) : ReadsBack t.toJson := by
  have hoption := Json.readsBack_optional ReadsBack.ofText
  refine .ofMembers ?_
  simp only [List.forall_mem_cons, Option.mem_some_iff, forall_eq']
  exact ⟨.ofText _, .ofList Column.readsBack_toJson _, .ofList Index.readsBack_toJson _,
    .ofList ForeignKey.readsBack_toJson _, hoption _, hoption _, hoption _, nofun⟩

@[simp]
theorem ofJson?_toJson (t : Table) : ofJson? t.toJson = some t := by
  rw [toJson, ofJson?, Json.fields?_ofMembers]
  · simp
  · rfl
  · decide

end Table

namespace Defaults

theorem readsBack_toJson (d : Defaults) : ReadsBack d.toJson := by
  refine .ofMembers ?_
  simp only [List.forall_mem_cons, Option.mem_some_iff, forall_eq']
  exact ⟨.ofText _, .ofText _, .ofText _, nofun⟩

@[simp]
theorem ofJson?_toJson (d : Defaults) : ofJson? d.toJson = some d := by
  rw [toJson, ofJson?, Json.fields?_ofMembers]
  · simp
  · rfl
  · decide

end Defaults

namespace Schema

theorem readsBack_toJson (s : Schema) : ReadsBack s.toJson := by
  refine .ofMembers ?_
  simp only [List.forall_mem_cons, Option.mem_some_iff, forall_eq']
  exact ⟨.ofList Table.readsBack_toJson _, s.defaults.readsBack_toJson, nofun⟩

theorem ofJson?_toJson (s : Schema) : ofJson? s.toJson = some s := by
  rw [toJson, ofJson?, Json.fields?_ofMembers]
  · simp
  · rfl
  · decide

/-- A schema is what its document holds, and what the file of its octets does. -/
theorem document_loads_back (s : Schema) :
    ofDocument? s.document = some s ∧ ofBytes? s.document.toUTF8.data.toList = some s := by
  have hdocument : ofDocument? s.document = some s := by
    rw [document, ofDocument?, s.readsBack_toJson.parse?_render, Option.bind_some, ofJson?_toJson]
  refine ⟨hdocument, ?_⟩
  rw [ofBytes?, Text.decodeUtf8?_toUTF8, Option.bind_some, hdocument]

end Schema

end SchemaMigration
