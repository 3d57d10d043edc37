import CognitiveAgent.Json.Decoding

/-!
Forms of records, variants and lists. A record is written as an object with a member for each of
its fields, in their order, except that a field whose value is its declared default may be left
out. Main statement: taking the fields from such an object finds each of them in one of its forms,
or finds it missing, and then its value is the default.
-/

set_option autoImplicit false

namespace CognitiveAgent.Json

structure Field where
  name : String
  -- Whether the value of the field is its declared default.
  Omissible : Prop
  Forms : Json → Prop

def Field.plain (name : String) (Omissible : Prop) (form : Json) : Field :=
  ⟨name, Omissible, (· = form)⟩

inductive Written : List Field → List (String × Json) → Prop where
  | done : Written [] []
  | kept {field : Field} {fields : List Field} {value : Json} {members : List (String × Json)}
      (form : field.Forms value) (rest : Written fields members) :
      Written (field :: fields) ((field.name, value) :: members)
  | leftOut {field : Field} {fields : List Field} {members : List (String × Json)}
      (omissible : field.Omissible) (rest : Written fields members) :
      Written (field :: fields) members

def RecordOf (fields : List Field) : Json → Prop
  | .object members => Written fields members
  | _ => False

/-- What may be found of a field in a value of the given height. -/
def Field.Found (field : Field) (height : Nat) : Option Json → Prop
  | none => field.Omissible
  | some value => field.Forms value ∧ value.height < height

def FoundAll (height : Nat) : List Field → List (Option Json) → Prop
  | [], [] => True
  | field :: fields, found :: others => field.Found height found ∧ FoundAll height fields others
  | _, _ => False

def VariantOf (tag : String) (Forms : Json → Prop) (value : Json) : Prop :=
  ∃ content, value = tagged tag content ∧ Forms content

section Records

variable {field : Field} {fields : List Field} {members : List (String × Json)} {name : String}

private theorem Written.name_mem (written : Written fields members) :
    ∀ member ∈ members, member.1 ∈ fields.map Field.name := by
  induction written with
  | done => simp
  | kept _ _ ih =>
      intro member listed
      rcases List.mem_cons.1 listed with rfl | later
      · exact List.mem_cons_self
      · exact List.mem_cons_of_mem _ (ih member later)
  | leftOut _ _ ih =>
      intro member listed
      exact List.mem_cons_of_mem _ (ih member listed)

/-- A field that is not among the given ones is no member. -/
theorem Written.filter_name (written : Written fields members)
    (absent : name ∉ fields.map Field.name) : members.filter (·.1 == name) = [] := by
  rw [List.filter_eq_nil_iff]
  intro member listed same
  exact absent (beq_iff_eq.1 same ▸ written.name_mem member listed)

private theorem member?_cons_of_ne {value : Json} {other : String} (different : name ≠ other) :
    member? ((name, value) :: members) other = member? members other := by
  simp [member?, different]

private theorem mapM_member?_cons {value : Json} {names : List String} (absent : name ∉ names) :
    names.mapM (member? ((name, value) :: members)) = names.mapM (member? members) := by
  induction names with
  | nil => rfl
  | cons first names ih =>
      have different : name ≠ first := fun same => absent (same ▸ List.mem_cons_self)
      rw [List.mapM_cons, List.mapM_cons, member?_cons_of_ne different,
        ih fun listed => absent (List.mem_cons_of_mem _ listed)]

theorem FoundAll.mono {height larger : Nat} (le : height ≤ larger) :
    ∀ {fields : List Field} {found : List (Option Json)},
      FoundAll height fields found → FoundAll larger fields found
  | [], [], shape => shape
  | _ :: _, none :: _, ⟨omissible, rest⟩ => ⟨omissible, rest.mono le⟩
  | _ :: _, some _ :: _, ⟨⟨form, low⟩, rest⟩ => ⟨⟨form, Nat.lt_of_lt_of_le low le⟩, rest.mono le⟩

private theorem Written.mapM_member? (written : Written fields members)
    (distinct : (fields.map Field.name).Nodup) :
    ∃ found, (fields.map Field.name).mapM (member? members) = some found ∧
      FoundAll (heightMembers members + 1) fields found := by
  induction written with
  | done => exact ⟨[], rfl, trivial⟩
  | @kept field fields value members form rest ih =>
      have apart := List.nodup_cons.1 distinct
      obtain ⟨found, taken, shape⟩ := ih apart.2
      have first : member? ((field.name, value) :: members) field.name = some (some value) := by
        simp [member?, rest.filter_name apart.1]
      refine ⟨some value :: found, ?_, ⟨form, ?_⟩, shape.mono ?_⟩
      · simp [List.mapM_cons, first, mapM_member?_cons apart.1, taken]
      · simp only [heightMembers]
        omega
      · simp only [heightMembers]
        omega
  | @leftOut field fields members omissible rest ih =>
      have apart := List.nodup_cons.1 distinct
      obtain ⟨found, taken, shape⟩ := ih apart.2
      have missing : member? members field.name = some none := by
        simp [member?, rest.filter_name apart.1]
      exact ⟨none :: found, by simp [List.mapM_cons, missing, taken], omissible, shape⟩

/-- The fields of a record are taken from each of its forms. -/
theorem RecordOf.fields? {value : Json} (record : RecordOf fields value) (names : List String)
    (distinct : names.Nodup) (named : fields.map Field.name = names) :
    ∃ found, value.fields? names = some found ∧ FoundAll value.height fields found := by
  subst named
  cases value with
  | object members => exact Written.mapM_member? record distinct
  | _ => exact record.elim

end Records

section Fields

variable {α : Type} {decode : Json → Option α} {Forms : Json → Prop} {name : String}
  {height : Nat} {found : Option Json} {value : α}

theorem required?_of_found (shape : (Field.mk name False Forms).Found height found)
    (decoded : ∀ json, json.height < height → Forms json → decode json = some value) :
    required? decode found = some value := by
  cases found with
  | none => exact shape.elim
  | some json => exact decoded json shape.2 shape.1

theorem optional?_of_found {default : α}
    (shape : (Field.mk name (value = default) Forms).Found height found)
    (decoded : ∀ json, json.height < height → Forms json → decode json = some value) :
    optional? default decode found = some value := by
  cases found with
  | none => exact congrArg some (Eq.symm shape)
  | some json => exact decoded json shape.2 shape.1

theorem required?_plain {form : Json} (shape : (Field.plain name False form).Found height found)
    (decoded : decode form = some value) : required? decode found = some value := by
  apply required?_of_found shape
  rintro json _ rfl
  exact decoded

theorem optional?_plain {form : Json} {default : α}
    (shape : (Field.plain name (value = default) form).Found height found)
    (decoded : decode form = some value) : optional? default decode found = some value := by
  apply optional?_of_found shape
  rintro json _ rfl
  exact decoded

theorem string_of_found {text : String}
    (shape : (Field.plain name False (.string text)).Found height found) :
    required? string? found = some text :=
  required?_plain shape rfl

theorem nullable?_ofOption {encode : α → Json} (decoded : ∀ x, decode (encode x) = some x)
    (present : ∀ x, encode x ≠ .null) (content : Option α) :
    nullable? decode (ofOption encode content) = some content := by
  cases content with
  | none => rfl
  | some x =>
      have other : nullable? decode (encode x) = (decode (encode x)).map some := by
        cases shape : encode x with
        | null => exact absurd shape (present x)
        | _ => rfl
      rw [ofOption, other, decoded, Option.map_some]

end Fields

theorem variant?_tagged (tag : String) (content : Json) (tags : List String) (manner : Manner) :
    (tagged tag content).variant? tags manner = some ⟨tag, manner, some content⟩ := by
  simp [tagged, variant?, member?, required?, keyword?]

theorem height_tagged (tag : String) (content : Json) :
    (tagged tag content).height = content.height + 1 := by
  simp [tagged, height, heightMembers]

section Lists

variable {α : Type} {decode : Json → Option α}

def Itemwise (Forms : α → Json → Prop) : List α → List Json → Prop
  | [], [] => True
  | value :: values, item :: items => Forms value item ∧ Itemwise Forms values items
  | _, _ => False

def ArrayWith (Items : List Json → Prop) (json : Json) : Prop :=
  ∃ items, json = .array items ∧ Items items

theorem Itemwise.mapM {Forms : α → Json → Prop}
    (decoded : ∀ value item, Forms value item → decode item = some value) :
    ∀ {values : List α} {items : List Json}, Itemwise Forms values items →
      items.mapM decode = some values
  | [], [], _ => rfl
  | value :: values, item :: items, ⟨form, rest⟩ => by
      simp [List.mapM_cons, decoded value item form, rest.mapM decoded]

theorem ArrayWith.list? {Forms : α → Json → Prop} {values : List α} {json : Json}
    (formed : ArrayWith (Itemwise Forms values) json)
    (decoded : ∀ value item, Forms value item → decode item = some value) :
    list? decode json = some values := by
  obtain ⟨items, rfl, itemwise⟩ := formed
  exact itemwise.mapM decoded

theorem itemwise_map {Forms : α → Json → Prop} {encode : α → Json}
    (formed : ∀ value, Forms value (encode value)) (values : List α) :
    Itemwise Forms values (values.map encode) := by
  induction values with
  | nil => trivial
  | cons value values ih => exact ⟨formed value, ih⟩

theorem list?_ofList {encode : α → Json} (decoded : ∀ value, decode (encode value) = some value)
    (values : List α) : list? decode (ofList encode values) = some values := by
  have itemwise : Itemwise (fun value item => item = encode value) values (values.map encode) := by
    apply itemwise_map
    exact fun value => rfl
  apply itemwise.mapM
  rintro value item rfl
  exact decoded value

end Lists

end CognitiveAgent.Json
