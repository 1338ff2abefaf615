import LuaBackend.Json.Basic
import Mathlib.Tactic.Common

/-!
# Documents and the JSON values that represent them

A document is what a tree has to say: scalars, lists, and records whose fields have names and an
order.  Many JSON values represent the same document, since each record may be an object or an
array and some fields may be left out.  `Document.toJson` is one of these values, with every record
an object and every field written.

Two relations tie a document to a value.  `Json.Represents` says what may be written and does not
mention a reader.  `Document.FoundIn` says what is found by looking fields up by name.  They agree
on values without repeated keys.
-/

namespace LuaBackend

mutual

inductive Document where
  | scalar (value : Json)
  | list (documents : List Document)
  /-- The fields stand in the order of an array. -/
  | record (fields : List Document.Field)

/-- A named part of a record.  It is omissible if its content is what a left out field means. -/
structure Document.Field where
  name : String
  omissible : Bool
  content : Document

end

/-! ## Values -/

namespace Json

mutual

/-- No object has two fields of one name. -/
def DistinctKeys : Json → Prop
  | .arr items => DistinctKeysOfItems items
  | .obj fields => (fields.map Prod.fst).Nodup ∧ DistinctKeysOfFields fields
  | _ => True

def DistinctKeysOfItems : List Json → Prop
  | [] => True
  | item :: items => item.DistinctKeys ∧ DistinctKeysOfItems items

def DistinctKeysOfFields : List (String × Json) → Prop
  | [] => True
  | (_, value) :: fields => value.DistinctKeys ∧ DistinctKeysOfFields fields

end

theorem distinctKeys_of_depth_eq_zero {json : Json} (hdepth : json.depth = 0) :
    json.DistinctKeys := by
  cases json with
  | arr | obj => simp [depth] at hdepth
  | _ => simp [DistinctKeys]

theorem distinctKeysOfFields_iff {fields : List (String × Json)} :
    DistinctKeysOfFields fields ↔ ∀ field ∈ fields, field.2.DistinctKeys := by
  induction fields with
  | nil => simp [DistinctKeysOfFields]
  | cons field fields ih => simp [DistinctKeysOfFields, ih]

theorem depth_le_depthOfItems {items : List Json} {item : Json} (hmem : item ∈ items) :
    item.depth ≤ depthOfItems items := by
  induction items with
  | nil => simp at hmem
  | cons first rest ih =>
      rw [depthOfItems]
      rcases List.mem_cons.1 hmem with rfl | hmem
      · omega
      · have := ih hmem
        omega

theorem depth_le_of_tagged?_eq_some {json inner : Json} {tag : String}
    (htagged : json.tagged? = some (tag, inner)) : inner.depth ≤ json.depth := by
  unfold tagged? at htagged
  split at htagged
  · split at htagged
    · simp_all
    · simp at htagged
  · simp only [Option.some.injEq, Prod.mk.injEq] at htagged
    rw [← htagged.2, depth, depth, depthOfItems]
    omega
  · simp at htagged

theorem depth_le_depthOfFields {fields : List (String × Json)} {name : String} {value : Json}
    (hmem : (name, value) ∈ fields) : value.depth ≤ depthOfFields fields := by
  induction fields with
  | nil => simp at hmem
  | cons first rest ih =>
      obtain ⟨other, first⟩ := first
      rw [depthOfFields]
      rcases List.mem_cons.1 hmem with heq | hmem
      · obtain ⟨-, rfl⟩ := Prod.mk.inj heq
        omega
      · have := ih hmem
        omega

namespace Record

theorem mem_of_lookup_eq_some {record : Record} {name : String} {value : Json}
    (hlookup : record.lookup name = some value) : (name, value) ∈ record := by
  obtain ⟨before, after, rfl, -⟩ := List.lookup_eq_some_iff.1 hlookup
  simp

theorem lookup_eq_none_iff_not_mem {record : Record} {name : String} :
    record.lookup name = none ↔ name ∉ record.map Prod.fst := by
  simp only [List.lookup_eq_none_iff, List.mem_map, bne_iff_ne, ne_eq, not_exists, not_and]
  exact forall₂_congr fun field _ => not_congr eq_comm

theorem lookup_cons_of_ne {record : Record} {name : String} {field : String × Json}
    (hne : name ≠ field.1) : List.lookup name (field :: record) = record.lookup name := by
  obtain ⟨other, value⟩ := field
  rw [List.lookup_cons, beq_false_of_ne hne]

theorem lookup_eq_some_of_mem {record : Record} (hkeys : (record.map Prod.fst).Nodup)
    {name : String} {value : Json} (hmem : (name, value) ∈ record) :
    record.lookup name = some value := by
  induction record with
  | nil => simp at hmem
  | cons field record ih =>
      rw [List.map_cons, List.nodup_cons] at hkeys
      rcases List.mem_cons.1 hmem with rfl | hmem
      · simp
      · have hne : name ≠ field.1 := by
          intro heq
          exact hkeys.1 (heq ▸ List.mem_map_of_mem hmem)
        rw [lookup_cons_of_ne hne]
        exact ih hkeys.2 hmem

end Record

end Json

/-! ## What may be written -/

mutual

/-- The value represents the document. -/
inductive Json.Represents : Json → Document → Prop where
  | scalar (value : Json) : Represents value (.scalar value)
  | list {items : List Json} {documents : List Document} (hitems : ListRepresents items documents) :
      Represents (.arr items) (.list documents)
  | object {entries : List (String × Json)} {fields : List Document.Field}
      (hentries : Holds entries fields) : Represents (.obj entries) (.record fields)
  | array {items : List Json} {fields : List Document.Field} (hitems : Enumerates items fields) :
      Represents (.arr items) (.record fields)

inductive Json.ListRepresents : List Json → List Document → Prop where
  | nil : ListRepresents [] []
  | cons {item : Json} {document : Document} {items : List Json} {documents : List Document}
      (hitem : item.Represents document) (hitems : ListRepresents items documents) :
      ListRepresents (item :: items) (document :: documents)

/-- The entries of an object hold the fields, in any order and beside any others. -/
inductive Json.Holds : List (String × Json) → List Document.Field → Prop where
  | nil {entries : List (String × Json)} : Holds entries []
  | field {entries : List (String × Json)} {field : Document.Field} {value : Json}
      {fields : List Document.Field} (hmem : (field.name, value) ∈ entries)
      (hvalue : value.Represents field.content) (hfields : Holds entries fields) :
      Holds entries (field :: fields)
  | leftOut {entries : List (String × Json)} {field : Document.Field}
      {fields : List Document.Field} (homissible : field.omissible = true)
      (habsent : field.name ∉ entries.map Prod.fst) (hfields : Holds entries fields) :
      Holds entries (field :: fields)

/-- The items of an array are the fields in their order, up to the last one that is written. -/
inductive Json.Enumerates : List Json → List Document.Field → Prop where
  | leftOut {fields : List Document.Field}
      (homissible : ∀ field ∈ fields, field.omissible = true) : Enumerates [] fields
  | field {item : Json} {field : Document.Field} {items : List Json}
      {fields : List Document.Field} (hitem : item.Represents field.content)
      (hitems : Enumerates items fields) : Enumerates (item :: items) (field :: fields)

end

namespace Document

mutual

/-- Every record as an object with all its fields. -/
def toJson : Document → Json
  | .scalar value => value
  | .list documents => .arr (toJsonList documents)
  | .record fields => .obj (toJsonFields fields)

def toJsonList : List Document → List Json
  | [] => []
  | document :: documents => document.toJson :: toJsonList documents

def toJsonFields : List Field → List (String × Json)
  | [] => []
  | ⟨name, _, content⟩ :: fields => (name, content.toJson) :: toJsonFields fields

end

mutual

/-- Scalars do not nest, fields of a record differ in name, and what can be left out is at most a
flat object or array. -/
def WellFormed : Document → Prop
  | .scalar value => value.depth = 0
  | .list documents => ListWellFormed documents
  | .record fields => (fields.map Field.name).Nodup ∧ FieldsWellFormed fields

def ListWellFormed : List Document → Prop
  | [] => True
  | document :: documents => document.WellFormed ∧ ListWellFormed documents

def FieldsWellFormed : List Field → Prop
  | [] => True
  | ⟨_, omissible, content⟩ :: fields =>
    (content.WellFormed ∧ (omissible = true → content.toJson.depth ≤ 1)) ∧ FieldsWellFormed fields

end

def Field.WellFormed (field : Field) : Prop :=
  field.content.WellFormed ∧ (field.omissible = true → field.content.toJson.depth ≤ 1)

@[simp] theorem fieldsWellFormed_nil : FieldsWellFormed [] := trivial

@[simp] theorem fieldsWellFormed_cons {field : Field} {fields : List Field} :
    FieldsWellFormed (field :: fields) ↔ field.WellFormed ∧ FieldsWellFormed fields := by
  cases field
  exact Iff.rfl

@[simp] theorem toJsonFields_nil : toJsonFields [] = [] := rfl

@[simp] theorem toJsonFields_cons (field : Field) (fields : List Field) :
    toJsonFields (field :: fields) = (field.name, field.content.toJson) :: toJsonFields fields := by
  cases field
  rfl

theorem map_fst_toJsonFields (fields : List Field) :
    (toJsonFields fields).map Prod.fst = fields.map Field.name := by
  induction fields with
  | nil => rfl
  | cons field fields ih => simp [ih]

/-! ## The value with every field -/

theorem holds_of_subset {entries larger : List (String × Json)} {fields : List Field}
    (hsubset : entries ⊆ larger) (hwritten : ∀ field ∈ fields, field.name ∈ entries.map Prod.fst)
    (hentries : Json.Holds entries fields) : Json.Holds larger fields := by
  induction fields with
  | nil => exact .nil
  | cons field fields ih =>
      have hfields : Json.Holds entries fields → Json.Holds larger fields :=
        ih fun field hmem => hwritten field (List.mem_cons_of_mem _ hmem)
      cases hentries with
      | field hmem hvalue hrest => exact .field (hsubset hmem) hvalue (hfields hrest)
      | leftOut _ habsent _ => exact absurd (hwritten field List.mem_cons_self) habsent

mutual

theorem represents_toJson : (document : Document) → document.toJson.Represents document
  | .scalar value => .scalar value
  | .list documents => .list (listRepresents_toJsonList documents)
  | .record fields => .object (holds_toJsonFields fields)

theorem listRepresents_toJsonList : (documents : List Document) →
    Json.ListRepresents (toJsonList documents) documents
  | [] => .nil
  | document :: documents =>
    .cons document.represents_toJson (listRepresents_toJsonList documents)

theorem holds_toJsonFields : (fields : List Field) → Json.Holds (toJsonFields fields) fields
  | [] => .nil
  | ⟨name, omissible, content⟩ :: fields => by
    have hrest : Json.Holds (toJsonFields (⟨name, omissible, content⟩ :: fields)) fields := by
      apply holds_of_subset (List.subset_cons_self _ _) _ (holds_toJsonFields fields)
      intro field hmem
      rw [map_fst_toJsonFields]
      exact List.mem_map_of_mem hmem
    exact .field List.mem_cons_self content.represents_toJson hrest

end

mutual

theorem distinctKeys_toJson : (document : Document) → document.WellFormed →
    document.toJson.DistinctKeys
  | .scalar _, hdocument => Json.distinctKeys_of_depth_eq_zero hdocument
  | .list documents, hdocument => distinctKeys_toJsonList documents hdocument
  | .record fields, hdocument => by
    rw [toJson, Json.DistinctKeys, map_fst_toJsonFields]
    exact ⟨hdocument.1, distinctKeys_toJsonFields fields hdocument.2⟩

theorem distinctKeys_toJsonList : (documents : List Document) → ListWellFormed documents →
    Json.DistinctKeysOfItems (toJsonList documents)
  | [], _ => trivial
  | document :: documents, hdocuments =>
    ⟨document.distinctKeys_toJson hdocuments.1, distinctKeys_toJsonList documents hdocuments.2⟩

theorem distinctKeys_toJsonFields : (fields : List Field) → FieldsWellFormed fields →
    Json.DistinctKeysOfFields (toJsonFields fields)
  | [], _ => trivial
  | ⟨_, _, content⟩ :: fields, hfields =>
    ⟨content.distinctKeys_toJson hfields.1.1, distinctKeys_toJsonFields fields hfields.2⟩

end

/-! ## How deep documents nest -/

mutual

/-- Writing out what a value leaves out costs at most one level. -/
theorem depth_toJson_le : (document : Document) → document.WellFormed → {json : Json} →
    json.Represents document → document.toJson.depth ≤ json.depth + 1
  | .scalar value, _, json, hjson => by
    cases hjson
    rw [toJson]
    omega
  | .list documents, hdocument, json, hjson => by
    cases hjson with
    | list hitems =>
        have hdocuments := depthOfItems_toJsonList_le documents hdocument hitems
        rw [toJson, Json.depth, Json.depth]
        omega
  | .record fields, hdocument, json, hjson => by
    cases hjson with
    | object hentries =>
        have hfields := depthOfFields_le_of_holds fields hdocument.2 hentries
        rw [toJson, Json.depth, Json.depth]
        omega
    | array hitems =>
        have hfields := depthOfFields_le_of_enumerates fields hdocument.2 hitems
        rw [toJson, Json.depth, Json.depth]
        omega

theorem depthOfItems_toJsonList_le : (documents : List Document) → ListWellFormed documents →
    {items : List Json} → Json.ListRepresents items documents →
      Json.depthOfItems (toJsonList documents) ≤ Json.depthOfItems items + 1
  | [], _, items, hitems => by
    rw [toJsonList, Json.depthOfItems]
    omega
  | document :: documents, hdocuments, items, hitems => by
    cases hitems with
    | cons hitem hitems =>
        have hfirst := document.depth_toJson_le hdocuments.1 hitem
        have hrest := depthOfItems_toJsonList_le documents hdocuments.2 hitems
        rw [toJsonList, Json.depthOfItems, Json.depthOfItems]
        omega

theorem depthOfFields_le_of_holds : (fields : List Field) → FieldsWellFormed fields →
    {entries : List (String × Json)} → Json.Holds entries fields →
      Json.depthOfFields (toJsonFields fields) ≤ Json.depthOfFields entries + 1
  | [], _, entries, _ => by
    rw [toJsonFields, Json.depthOfFields]
    omega
  | ⟨_, _, content⟩ :: fields, hdocument, entries, hentries => by
    rw [toJsonFields, Json.depthOfFields]
    cases hentries with
    | field hmem hvalue hentries =>
        have hfirst := content.depth_toJson_le hdocument.1.1 hvalue
        have hrest := depthOfFields_le_of_holds fields hdocument.2 hentries
        have hvalue := Json.depth_le_depthOfFields hmem
        omega
    | leftOut homissible _ hentries =>
        have hfirst := hdocument.1.2 homissible
        have hrest := depthOfFields_le_of_holds fields hdocument.2 hentries
        omega

theorem depthOfFields_le_of_enumerates : (fields : List Field) → FieldsWellFormed fields →
    {items : List Json} → Json.Enumerates items fields →
      Json.depthOfFields (toJsonFields fields) ≤ Json.depthOfItems items + 1
  | [], _, items, _ => by
    rw [toJsonFields, Json.depthOfFields]
    omega
  | ⟨_, _, content⟩ :: fields, hdocument, items, hitems => by
    rw [toJsonFields, Json.depthOfFields]
    cases hitems with
    | field hitem hitems =>
        have hfirst := content.depth_toJson_le hdocument.1.1 hitem
        have hrest := depthOfFields_le_of_enumerates fields hdocument.2 hitems
        rw [Json.depthOfItems]
        omega
    | leftOut homissible =>
        have hfirst := hdocument.1.2 (homissible _ List.mem_cons_self)
        have hleft : Json.Enumerates [] fields :=
          .leftOut fun field hmem => homissible field (List.mem_cons_of_mem _ hmem)
        have hrest := depthOfFields_le_of_enumerates fields hdocument.2 hleft
        omega

end

/-! ## What is found by name -/

mutual

/-- Looking the fields of the document up in the value finds the document. -/
def FoundIn : Document → Json → Prop
  | .scalar value, json => json = value
  | .list documents, json => ∃ items, json = .arr items ∧ ListFoundIn documents items
  | .record fields, json =>
    ∃ entries, json.record? (fields.map Field.name) = some entries ∧ FieldsFoundIn fields entries

def ListFoundIn : List Document → List Json → Prop
  | [], items => items = []
  | document :: documents, items =>
    ∃ item rest, items = item :: rest ∧ document.FoundIn item ∧ ListFoundIn documents rest

def FieldsFoundIn : List Field → Json.Record → Prop
  | [], _ => True
  | ⟨name, omissible, content⟩ :: fields, entries =>
    (match entries.lookup name with
      | some value => content.FoundIn value
      | none => omissible = true) ∧
      FieldsFoundIn fields entries

end

def Field.FoundIn (field : Field) (entries : Json.Record) : Prop :=
  match entries.lookup field.name with
  | some value => field.content.FoundIn value
  | none => field.omissible = true

@[simp] theorem fieldsFoundIn_nil (entries : Json.Record) : FieldsFoundIn [] entries := trivial

@[simp] theorem fieldsFoundIn_cons {field : Field} {fields : List Field} {entries : Json.Record} :
    FieldsFoundIn (field :: fields) entries ↔
      field.FoundIn entries ∧ FieldsFoundIn fields entries := by
  cases field
  exact Iff.rfl

theorem Field.foundIn_of_lookup_eq_some {field : Field} {entries : Json.Record} {value : Json}
    (hlookup : entries.lookup field.name = some value) :
    field.FoundIn entries ↔ field.content.FoundIn value := by
  rw [FoundIn, hlookup]

theorem Field.foundIn_of_lookup_eq_none {field : Field} {entries : Json.Record}
    (hlookup : entries.lookup field.name = none) :
    field.FoundIn entries ↔ field.omissible = true := by
  rw [FoundIn, hlookup]

/-- An entry under another name does not matter. -/
theorem fieldsFoundIn_cons_entry {fields : List Field} {name : String}
    (hname : name ∉ fields.map Field.name) (value : Json) (entries : Json.Record) :
    FieldsFoundIn fields ((name, value) :: entries) ↔ FieldsFoundIn fields entries := by
  induction fields with
  | nil => simp
  | cons field fields ih =>
      rw [List.map_cons, List.mem_cons, not_or] at hname
      have hfield : field.FoundIn ((name, value) :: entries) ↔ field.FoundIn entries := by
        rw [Field.FoundIn, Field.FoundIn, Json.Record.lookup_cons_of_ne (Ne.symm hname.1)]
      rw [fieldsFoundIn_cons, fieldsFoundIn_cons, hfield, ih hname.2]

theorem fieldsFoundIn_empty {fields : List Field} :
    FieldsFoundIn fields [] ↔ ∀ field ∈ fields, field.omissible = true := by
  induction fields with
  | nil => simp
  | cons field fields ih => simp [ih, Field.FoundIn]

theorem foundIn_record_obj {fields : List Field} {entries : List (String × Json)} :
    (Document.record fields).FoundIn (.obj entries) ↔ FieldsFoundIn fields entries := by
  simp [FoundIn, Json.record?]

theorem foundIn_record_arr {fields : List Field} {items : List Json} :
    (Document.record fields).FoundIn (.arr items) ↔
      items.length ≤ fields.length ∧
        FieldsFoundIn fields ((fields.map Field.name).zip items) := by
  simp [FoundIn, Json.record?]

/-- A record nests at least one level. -/
theorem depth_pos_of_foundIn_record {fields : List Field} {json : Json}
    (hfound : (Document.record fields).FoundIn json) : 0 < json.depth := by
  cases json with
  | obj | arr => simp [Json.depth]
  | _ => simp [FoundIn, Json.record?] at hfound

/-- The items of an array are found under the names of the fields that they stand for. -/
theorem fieldsFoundIn_zip_cons {field : Field} {fields : List Field} {item : Json}
    {items : List Json} (hname : field.name ∉ fields.map Field.name) :
    FieldsFoundIn (field :: fields) (((field :: fields).map Field.name).zip (item :: items)) ↔
      field.content.FoundIn item ∧ FieldsFoundIn fields ((fields.map Field.name).zip items) := by
  have hlookup : List.lookup field.name ((field.name, item) :: (fields.map Field.name).zip items) =
      some item := by simp
  rw [List.map_cons, List.zip_cons_cons, fieldsFoundIn_cons, fieldsFoundIn_cons_entry hname,
    Field.foundIn_of_lookup_eq_some hlookup]

mutual

theorem represents_of_foundIn : (document : Document) → document.WellFormed → {json : Json} →
    document.FoundIn json → json.Represents document
  | .scalar _, _, json, hfound => by
    obtain rfl := hfound
    exact .scalar _
  | .list documents, hdocument, json, hfound => by
    obtain ⟨items, rfl, hitems⟩ := hfound
    exact .list (listRepresents_of_foundIn documents hdocument hitems)
  | .record fields, hdocument, json, hfound => by
    cases json with
    | obj entries =>
        rw [foundIn_record_obj] at hfound
        exact .object (holds_of_foundIn fields hdocument.2 hfound)
    | arr items =>
        rw [foundIn_record_arr] at hfound
        exact .array (enumerates_of_foundIn fields hdocument hfound.1 hfound.2)
    | _ => simp [FoundIn, Json.record?] at hfound

theorem listRepresents_of_foundIn : (documents : List Document) → ListWellFormed documents →
    {items : List Json} → ListFoundIn documents items → Json.ListRepresents items documents
  | [], _, items, hfound => by
    obtain rfl := hfound
    exact .nil
  | document :: documents, hdocuments, items, hfound => by
    obtain ⟨item, rest, rfl, hitem, hrest⟩ := hfound
    exact .cons (document.represents_of_foundIn hdocuments.1 hitem)
      (listRepresents_of_foundIn documents hdocuments.2 hrest)

theorem holds_of_foundIn : (fields : List Field) → FieldsWellFormed fields →
    {entries : Json.Record} → FieldsFoundIn fields entries → Json.Holds entries fields
  | [], _, entries, _ => .nil
  | ⟨name, omissible, content⟩ :: fields, hfields, entries, hfound => by
    rw [fieldsFoundIn_cons] at hfound
    have hrest := holds_of_foundIn fields hfields.2 hfound.2
    cases hlookup : entries.lookup name with
    | some value =>
        have hvalue := (Field.foundIn_of_lookup_eq_some hlookup).1 hfound.1
        exact .field (Json.Record.mem_of_lookup_eq_some hlookup)
          (content.represents_of_foundIn hfields.1.1 hvalue) hrest
    | none =>
        have homissible := (Field.foundIn_of_lookup_eq_none hlookup).1 hfound.1
        exact .leftOut homissible (Json.Record.lookup_eq_none_iff_not_mem.1 hlookup) hrest

theorem enumerates_of_foundIn : (fields : List Field) → (Document.record fields).WellFormed →
    {items : List Json} → items.length ≤ fields.length →
      FieldsFoundIn fields ((fields.map Field.name).zip items) → Json.Enumerates items fields
  | [], _, items, hlength, _ => by
    obtain rfl : items = [] := List.eq_nil_of_length_eq_zero (by simpa using hlength)
    exact .leftOut (by simp)
  | ⟨name, omissible, content⟩ :: fields, hfields, items, hlength, hfound => by
    cases items with
    | nil =>
        rw [List.zip_nil_right, fieldsFoundIn_empty] at hfound
        exact .leftOut hfound
    | cons item items =>
        obtain ⟨hname, hnames⟩ := List.nodup_cons.1 hfields.1
        rw [fieldsFoundIn_zip_cons hname] at hfound
        have hrest : (Document.record fields).WellFormed := ⟨hnames, hfields.2.2⟩
        exact .field (content.represents_of_foundIn hfields.2.1.1 hfound.1)
          (enumerates_of_foundIn fields hrest (by simpa using hlength) hfound.2)

end

mutual

theorem foundIn_of_represents : (document : Document) → document.WellFormed → {json : Json} →
    json.DistinctKeys → json.Represents document → document.FoundIn json
  | .scalar _, _, json, _, hjson => by
    cases hjson
    rfl
  | .list documents, hdocument, json, hkeys, hjson => by
    cases hjson with
    | list hitems =>
        exact ⟨_, rfl, listFoundIn_of_represents documents hdocument hkeys hitems⟩
  | .record fields, hdocument, json, hkeys, hjson => by
    cases hjson with
    | object hentries =>
        rw [foundIn_record_obj]
        exact fieldsFoundIn_of_holds fields hdocument.2 hkeys.1 hkeys.2 hentries
    | array hitems =>
        rw [foundIn_record_arr]
        exact fieldsFoundIn_of_enumerates fields hdocument hkeys hitems

theorem listFoundIn_of_represents : (documents : List Document) → ListWellFormed documents →
    {items : List Json} → Json.DistinctKeysOfItems items → Json.ListRepresents items documents →
      ListFoundIn documents items
  | [], _, items, _, hitems => by
    cases hitems
    rfl
  | document :: documents, hdocuments, items, hkeys, hitems => by
    cases hitems with
    | cons hitem hitems =>
        exact ⟨_, _, rfl, document.foundIn_of_represents hdocuments.1 hkeys.1 hitem,
          listFoundIn_of_represents documents hdocuments.2 hkeys.2 hitems⟩

theorem fieldsFoundIn_of_holds : (fields : List Field) → FieldsWellFormed fields →
    {entries : Json.Record} → (entries.map Prod.fst).Nodup → Json.DistinctKeysOfFields entries →
      Json.Holds entries fields → FieldsFoundIn fields entries
  | [], _, entries, _, _, _ => trivial
  | ⟨name, omissible, content⟩ :: fields, hfields, entries, hnames, hkeys, hentries => by
    rw [fieldsFoundIn_cons]
    cases hentries with
    | field hmem hvalue hentries =>
        have hlookup := Json.Record.lookup_eq_some_of_mem hnames hmem
        have hdistinct := Json.distinctKeysOfFields_iff.1 hkeys _ hmem
        rw [Field.foundIn_of_lookup_eq_some hlookup]
        exact ⟨content.foundIn_of_represents hfields.1.1 hdistinct hvalue,
          fieldsFoundIn_of_holds fields hfields.2 hnames hkeys hentries⟩
    | leftOut homissible habsent hentries =>
        have hlookup := Json.Record.lookup_eq_none_iff_not_mem.2 habsent
        rw [Field.foundIn_of_lookup_eq_none hlookup]
        exact ⟨homissible, fieldsFoundIn_of_holds fields hfields.2 hnames hkeys hentries⟩

theorem fieldsFoundIn_of_enumerates : (fields : List Field) →
    (Document.record fields).WellFormed → {items : List Json} → Json.DistinctKeysOfItems items →
      Json.Enumerates items fields → items.length ≤ fields.length ∧
        FieldsFoundIn fields ((fields.map Field.name).zip items)
  | [], _, items, _, hitems => by
    cases hitems
    simp
  | ⟨name, omissible, content⟩ :: fields, hfields, items, hkeys, hitems => by
    cases hitems with
    | leftOut homissible =>
        rw [List.zip_nil_right, fieldsFoundIn_empty]
        exact ⟨Nat.zero_le _, homissible⟩
    | field hitem hitems =>
        obtain ⟨hname, hnames⟩ := List.nodup_cons.1 hfields.1
        have hrest : (Document.record fields).WellFormed := ⟨hnames, hfields.2.2⟩
        obtain ⟨hlength, hfound⟩ := fieldsFoundIn_of_enumerates fields hrest hkeys.2 hitems
        rw [fieldsFoundIn_zip_cons hname]
        exact ⟨Nat.succ_le_succ hlength,
          content.foundIn_of_represents hfields.2.1.1 hkeys.1 hitem, hfound⟩

end

/-! ## Tagged records -/

/-- A record that begins with the name of its kind. -/
def tagged (tag : String) (fields : List Field) : Document :=
  .record (⟨"type", false, .scalar (.str tag)⟩ :: fields)

/-- The fields of a record behind its first one, which is the tag. -/
def besideTag : Document → List Field
  | .record (_ :: fields) => fields
  | _ => []

/-- The tag is looked up like a field, and what is left is a record of the other fields. -/
theorem foundIn_tagged_iff {tag : String} {fields : List Field}
    (htype : "type" ∉ fields.map Field.name) {json : Json} :
    (tagged tag fields).FoundIn json ↔
      ∃ inner, json.tagged? = some (tag, inner) ∧ (Document.record fields).FoundIn inner := by
  cases json with
  | obj entries =>
      rw [tagged, foundIn_record_obj, fieldsFoundIn_cons]
      simp only [Json.tagged?]
      cases hlookup : List.lookup "type" entries with
      | none => simp [Field.FoundIn, hlookup]
      | some value =>
          rw [Field.foundIn_of_lookup_eq_some hlookup, FoundIn]
          cases value <;> simp [foundIn_record_obj]
  | arr items =>
      rw [tagged, foundIn_record_arr]
      cases items with
      | nil => simp [Json.tagged?, Field.FoundIn]
      | cons item items =>
          rw [fieldsFoundIn_zip_cons htype, FoundIn]
          cases item <;> simp [Json.tagged?, foundIn_record_arr, and_left_comm]
  | _ => simp [FoundIn, tagged, Json.record?, Json.tagged?]

end Document

end LuaBackend
