import Mathlib.Data.List.Infix
import ServiceModel.Proofs.OpenApi.Flattening
import ServiceModel.Proofs.OpenApi.Maps

/-!
Objects written in place and their messages.  A field that such an object describes refers to the message
with the ID of its owner and the capitalised name of the field, and this is the message of that very object
unless something else in the document has the same ID.  Where names have no dots there is only one way to
that: another field of the same owner whose capitalised name is the same.
-/

namespace ServiceModel

/-! ### Capitals -/

namespace Text

theorem ofNat_ne_dot {n : Nat} (h : n ≠ 46) : Char.ofNat n ≠ '.' := by
  intro hdot
  have hcode : (Char.ofNat n).toNat = 46 := congrArg Char.toNat hdot
  unfold Char.ofNat at hcode
  by_cases hvalid : n.isValidChar
  · rw [dif_pos hvalid] at hcode
    exact h hcode
  · rw [dif_neg hvalid] at hcode
    exact absurd hcode (by decide)

/-- No capital is a dot but that of a dot. -/
theorem not_mem_dot_upperChar {c : Char} (h : c ≠ '.') : '.' ∉ upperChar c := by
  by_cases hascii : c.toNat < 128
  · have hall : ∀ n < 128, Char.ofNat n ≠ '.' → '.' ≠ (Char.ofNat n).toUpper := by decide
    rw [upperChar_ascii hascii, List.mem_singleton]
    have hc := hall c.toNat hascii
    rw [Char.ofNat_toNat] at hc
    exact hc h
  · have hlong : ∀ e ∈ longCases, 46 ∉ e.2 := by decide +kernel
    have hruns : ∀ r ∈ caseRuns, 46 < (r.first : Int) + r.shift := by decide +kernel
    rw [upperChar, if_neg hascii]
    split
    next codes hcodes =>
      rw [List.mem_map]
      rintro ⟨n, hn, hdot⟩
      obtain ⟨before, after, heq, -⟩ := List.lookup_eq_some_iff.1 hcodes
      have hfound : (c.toNat, codes) ∈ longCases := by
        rw [heq]
        simp
      exact ofNat_ne_dot (fun heq => hlong _ hfound (heq ▸ hn)) hdot
    next =>
      split
      next r hr =>
        rw [List.mem_singleton]
        have hshift := hruns r (List.mem_of_find?_eq_some hr)
        have hcovers := List.find?_some hr
        simp only [CaseRun.covers, Bool.and_eq_true, decide_eq_true_eq] at hcovers
        exact (ofNat_ne_dot (by omega)).symm
      next =>
        rw [List.mem_singleton]
        exact h.symm

theorem not_mem_dot_upperFirst {s : String} (h : '.' ∉ s.toList) : '.' ∉ (upperFirst s).toList := by
  unfold upperFirst
  split
  · exact List.not_mem_nil
  next c cs hs =>
    rw [hs, List.mem_cons, not_or] at h
    rw [String.toList_ofList, List.mem_append, not_or]
    exact ⟨not_mem_dot_upperChar (Ne.symm h.1), h.2⟩

end Text

namespace OpenApi

/-! ### Fields -/

section Fields

variable {s : Setting} {ownerId name : String}

/-- What holds an object written in place denotes the message of that object, a list of such messages or a
map to them. -/
theorem Inline.denotes {schema object : Schema} {type : FieldType} (h : Inline s schema object)
    (hdenotes : Denotes s ownerId name schema type) :
    type = { FieldType.message (ownerId ++ "." ++ Text.upperFirst name) with
        repeated := type.repeated } ∨
      MapOf s ownerId name schema (.message (ownerId ++ "." ++ Text.upperFirst name)) ∧
        type = { FieldType.message (entryId (.message (ownerId ++ "." ++ Text.upperFirst name))) with
          isMap := true } := by
  -- no schema is under two rules, so each rule for objects is met by that for types
  induction h generalizing type with
  | self hplain htype hobject =>
      cases hdenotes with
      | nested => exact Or.inl rfl
      | _ => simp_all [Schema.IsOwn, Schema.IsPlain]
  | reference href hcomponent hmessage _ ih =>
      cases hdenotes with
      | reference href' hcomponent' _ hdenotes =>
          cases href.symm.trans href'
          cases hcomponent.symm.trans hcomponent'
          exact (ih hdenotes).imp_right (.imp_left (·.reference href hcomponent hmessage))
      | _ => simp_all [Schema.IsOwn, Schema.IsPlain]
  | sole href hall hproperties _ ih =>
      cases hdenotes with
      | sole _ hall' _ hdenotes =>
          cases hall.symm.trans hall'
          exact (ih hdenotes).imp_right (.imp_left (·.sole href hall hproperties))
      | _ => simp_all [Schema.IsOwn, Schema.IsPlain]
  | list hown harray hitems _ ih =>
      cases hdenotes with
      | list _ _ hitems' hdenotes _ hflat =>
          cases hitems.symm.trans hitems'
          rcases ih hdenotes with heq | ⟨-, heq⟩
          · rw [heq]
            exact Or.inl rfl
          · rw [heq] at hflat
            cases hflat
      | _ => simp_all [Schema.IsOwn, Schema.IsPlain]
  | map hown harray hmap hvalue _ ih =>
      cases hdenotes with
      | map _ _ _ hvalue' hdenotes hsingle hflat =>
          cases hvalue.symm.trans hvalue'
          rcases ih hdenotes with heq | ⟨-, heq⟩
          · rw [hsingle] at heq
            subst heq
            exact Or.inr ⟨.of_values hown harray hmap hvalue hdenotes rfl rfl, rfl⟩
          · rw [heq] at hflat
            cases hflat
      | _ => simp_all [Schema.IsOwn, Schema.IsPlain]

end Fields

/-- A field refers to the message with an ID: it is such a message or a list of them, or a map to them. -/
def Refers (t : SymbolTable) (f : Field) (id : String) : Prop :=
  (f.wireType = .message ∧ f.typeId = id ∧ f.isMap = false) ∨
    f.isMap = true ∧ ∃ e, t.message? f.typeId = some e ∧ e.EntryOf (.message id)

/-! ### Messages -/

/-- The message of an object written in place, in a field with a name of the message with an ID: it is named
for the field, stands inside its owner, and has a field for each of the properties of this very object. -/
structure InPlace (s : Setting) (ownerId name : String) (object : Schema) (n : Message) : Prop where
  name : n.name = Text.upperFirst name
  parent : n.parent = some ownerId
  properties : ∃ properties, Flat s [object] properties ∧ MadeFrom s object properties n

/-- Something else in a document has the ID of the message of an object written in place: a message that
stands in no other, a well-known one, or that of the object in another field. -/
inductive Taken (s : Setting) (es : List Endpoint) (ownerId : String) (part : Part)
    (object : Schema) : Prop where
  | top {name} :
      TopLevel s es name → ownerId ++ "." ++ Text.upperFirst part.name = s.id name →
      Taken s es ownerId part object
  | wellKnown {name} :
      name ∈ SymbolTable.wellKnownMessages →
      ownerId ++ "." ++ Text.upperFirst part.name = SymbolTable.wellKnownId name →
      Taken s es ownerId part object
  | inlined {otherId other object'} :
      Inlined s es otherId other object' →
      ownerId ++ "." ++ Text.upperFirst part.name = otherId ++ "." ++ Text.upperFirst other.name →
      (otherId = ownerId → other.name = part.name → object' ≠ object) →
      Taken s es ownerId part object

section Tables

variable {s : Setting} {es : List Endpoint} {ownerId : String} {part : Part} {object : Schema}

theorem Inlined.id_prefix (h : Inlined s es ownerId part object) :
    ("." ++ s.package ++ ".").toList <+: ownerId.toList := by
  obtain ⟨_, horigin, -⟩ := h
  exact horigin.id_prefix

/-- Whatever is under the ID of the message of an object is that message, unless the ID is taken. -/
theorem Traced.inPlace_or_taken {t : SymbolTable} {n : Message} (ht : Traced s es t)
    (hpackage : ¬ entryLead.toList <+: s.package.toList) (h : Inlined s es ownerId part object)
    (hn : t.message? (ownerId ++ "." ++ Text.upperFirst part.name) = some n) :
    InPlace s ownerId part.name object n ∨ Taken s es ownerId part object := by
  obtain ⟨hid, hsource⟩ := ht _ n hn
  cases hsource with
  | wellKnown hname hwellKnown _ => exact Or.inr (.wellKnown hname (hid.symm.trans hwellKnown))
  | entry =>
      have hprefix : ("." ++ s.package ++ ".").toList <+:
          (ownerId ++ "." ++ Text.upperFirst part.name).toList := by
        refine h.id_prefix.trans ?_
        rw [String.toList_append, String.toList_append, List.append_assoc]
        exact List.prefix_append _ _
      exact absurd hid.symm (ne_entryId_of_package hprefix hpackage _)
  | parts _ _ hseat =>
      cases hseat with
      | top htop hseated => exact Or.inr (.top htop (hid.symm.trans hseated))
      | @inside otherId other object' flat hother hflat hseated hname hparent hfields =>
          by_cases hsame : otherId = ownerId ∧ other.name = part.name ∧ object' = object
          · obtain ⟨rfl, hnames, rfl⟩ := hsame
            refine Or.inl ⟨hnames ▸ hname, hparent, flat.properties, flat_of_flatten hflat, ?_⟩
            exact madeFrom_of_becomes (fun _ => mem_required_of_flatten hflat) hfields
          · refine Or.inr (.inlined hother (hid.symm.trans hseated) fun hids hnames hobjects => ?_)
            exact hsame ⟨hids, hnames, hobjects⟩

/-- The message that a field refers to is there. -/
theorem exists_message_of_field {a : Api} {id : String} {m : Message} {f : Field} (ha : a.Closed)
    (hm : a.table.message? id = some m) (hf : f ∈ m.fields) (hmessage : f.wireType = .message) :
    ∃ n, a.table.message? f.typeId = some n :=
  Catalog.contains_iff.1 (((ha.messages id m hm).types f hf).1 (Or.inl hmessage))

/-- A field that an object written in place describes refers to the ID of its message, and there is a
message with this ID. -/
theorem refers_of_inlined {a : Api} {m : Message} {f : Field} (ha : a.Closed)
    (ht : Traced s es a.table) (hpackage : ¬ entryLead.toList <+: s.package.toList)
    (hm : a.table.message? ownerId = some m) (hf : f ∈ m.fields)
    (hdescribes : Describes s ownerId part f) (h : Inlined s es ownerId part object) :
    Refers a.table f (ownerId ++ "." ++ Text.upperFirst part.name) ∧
      ∃ n, a.table.message? (ownerId ++ "." ++ Text.upperFirst part.name) = some n := by
  obtain ⟨type, hdenotes, heq⟩ := hdescribes
  obtain ⟨parts, horigin, hpart, hobject⟩ := h
  have htype : f.type = type := by
    rw [heq]
    rfl
  rcases hobject.denotes hdenotes with hsingle | ⟨hmap, hentry⟩
  · rw [hsingle] at htype
    have hmessage : f.wireType = .message := congrArg FieldType.wireType htype
    have hid : f.typeId = ownerId ++ "." ++ Text.upperFirst part.name :=
      congrArg FieldType.typeId htype
    have hthere := exists_message_of_field ha hm hf hmessage
    exact ⟨Or.inl ⟨hmessage, hid, congrArg FieldType.isMap htype⟩, hid ▸ hthere⟩
  · rw [hentry] at htype
    have hid : f.typeId = entryId (.message (ownerId ++ "." ++ Text.upperFirst part.name)) :=
      congrArg FieldType.typeId htype
    obtain ⟨e, he⟩ := exists_message_of_field ha hm hf (congrArg FieldType.wireType htype)
    have hentryOf : e.EntryOf (.message (ownerId ++ "." ++ Text.upperFirst part.name)) :=
      (ht.entry hpackage ⟨parts, horigin, hpart, hmap⟩ (hid ▸ he)).elim id
        fun ⟨hstring, _⟩ => absurd hstring nofun
    -- the value of the entry is the message, so it is there as well
    have hvalue : ("value", FieldType.message (ownerId ++ "." ++ Text.upperFirst part.name)) ∈
        e.fields.map fun g => (g.name, g.type) := by
      rw [hentryOf.2]
      simp
    obtain ⟨g, hg, hgtype⟩ := List.mem_map.1 hvalue
    have hgtype := (Prod.mk.inj hgtype).2
    have hthere := exists_message_of_field ha he hg (congrArg FieldType.wireType hgtype)
    have hgid : g.typeId = ownerId ++ "." ++ Text.upperFirst part.name :=
      congrArg FieldType.typeId hgtype
    exact ⟨Or.inr ⟨congrArg FieldType.isMap htype, e, he, hentryOf⟩, hgid ▸ hthere⟩

end Tables

/-! ### Plain names -/

/-- The names in a document have no dots, and its package is not the one around the well-known messages. -/
structure PlainNames (s : Setting) (es : List Endpoint) : Prop where
  package : s.package ≠ "google"
  top : ∀ name, TopLevel s es name → '.' ∉ name.toList
  parts : ∀ ownerId part object, Inlined s es ownerId part object → '.' ∉ part.name.toList

section PlainNames

variable {s : Setting} {es : List Endpoint} {ownerId : String} {part : Part} {object : Schema}

/-- The ID of a nested message is in two parts where the name of its field has no dots. -/
theorem PlainNames.id_eq_iff (hplain : PlainNames s es) (h : Inlined s es ownerId part object)
    {front last : String} (hlast : '.' ∉ last.toList) :
    ownerId ++ "." ++ Text.upperFirst part.name = front ++ "." ++ last ↔
      ownerId = front ∧ Text.upperFirst part.name = last :=
  Text.dotted_inj (Text.not_mem_dot_upperFirst (hplain.parts _ _ _ h)) hlast

/-- No message that stands in no other has the ID of one that stands in another. -/
theorem PlainNames.ne_top (hplain : PlainNames s es) (h : Inlined s es ownerId part object)
    {name : String} (htop : TopLevel s es name) :
    ownerId ++ "." ++ Text.upperFirst part.name ≠ s.id name := by
  intro heq
  obtain ⟨howner, -⟩ := (hplain.id_eq_iff h (hplain.top _ htop)).1 heq
  have hlength := h.id_prefix.length_le
  have hdot : 0 < ".".toList.length := by decide
  simp only [howner, String.toList_append, List.length_append] at hlength
  omega

/-- No well-known message has the ID of one of the document that stands in another. -/
theorem PlainNames.ne_wellKnownId (hplain : PlainNames s es) (h : Inlined s es ownerId part object)
    {name : String} (hname : name ∈ SymbolTable.wellKnownMessages) :
    ownerId ++ "." ++ Text.upperFirst part.name ≠ SymbolTable.wellKnownId name := by
  intro heq
  have hdot : ∀ name ∈ SymbolTable.wellKnownMessages, '.' ∉ name.toList := by decide
  obtain ⟨howner, -⟩ := (hplain.id_eq_iff h (hdot name hname)).1 heq
  have hprefix : s.package.toList ++ ['.'] <+: SymbolTable.wellKnownPackage.toList := by
    simpa [howner] using h.id_prefix
  -- the package of the well-known messages has one dot, and `google` is in front of it
  have hfront : ∀ front ∈ SymbolTable.wellKnownPackage.toList.inits,
      front.getLast? = some '.' → front = "google".toList ++ ['.'] := by decide
  have hpackage := hfront _ ((List.mem_inits _ _).2 hprefix) (by simp)
  rw [List.append_cancel_right_eq, String.toList_inj] at hpackage
  exact hplain.package hpackage

/-- Where names are plain an ID is taken just if two fields of one owner have it, whose capitalised names
are the same. -/
theorem PlainNames.taken_iff (hplain : PlainNames s es) (h : Inlined s es ownerId part object) :
    Taken s es ownerId part object ↔
      ∃ other object', Inlined s es ownerId other object' ∧
        Text.upperFirst other.name = Text.upperFirst part.name ∧
          (other.name = part.name → object' ≠ object) := by
  constructor
  · intro htaken
    cases htaken with
    | top htop heq => exact absurd heq (hplain.ne_top h htop)
    | wellKnown hname heq => exact absurd heq (hplain.ne_wellKnownId h hname)
    | @inlined otherId other object' hother heq hdiffers =>
        obtain ⟨rfl, hcapital⟩ :=
          (hplain.id_eq_iff h (Text.not_mem_dot_upperFirst (hplain.parts _ _ _ hother))).1 heq
        exact ⟨other, object', hother, hcapital.symm, hdiffers rfl⟩
  · rintro ⟨other, object', hother, hcapital, hdiffers⟩
    exact .inlined hother (by rw [hcapital]) fun _ => hdiffers

end PlainNames

/-! ### Whole models -/

/-- Every field that an object written in place describes refers to a message of the model.  It is that of
this very object, inside the owner of the field, unless something else has its ID; where names have no dots,
that is another field of the same owner whose capitalised name is the same. -/
theorem ingest_inlined {d : Document} {asked : Option String} {config : Option ServiceConfig}
    {a : Api} (h : d.ingest asked config = .ok a)
    (hpackage : ¬ entryLead.toList <+: (packageName asked config).toList) :
    (∀ id m f part object, a.table.message? id = some m → f ∈ m.fields →
      Describes (d.setting asked config) id part f →
      Inlined (d.setting asked config) d.endpoints id part object →
        Refers a.table f (id ++ "." ++ Text.upperFirst part.name) ∧
          ∃ n, a.table.message? (id ++ "." ++ Text.upperFirst part.name) = some n ∧
            (InPlace (d.setting asked config) id part.name object n ∨
              Taken (d.setting asked config) d.endpoints id part object)) ∧
    (PlainNames (d.setting asked config) d.endpoints → ∀ ownerId part object,
      Inlined (d.setting asked config) d.endpoints ownerId part object →
        (Taken (d.setting asked config) d.endpoints ownerId part object ↔
          ∃ other object', Inlined (d.setting asked config) d.endpoints ownerId other object' ∧
            Text.upperFirst other.name = Text.upperFirst part.name ∧
              (other.name = part.name → object' ≠ object))) := by
  constructor
  · intro id m f part object hm hf hdescribes hinlined
    have htraced := ingest_traced h
    obtain ⟨hrefers, n, hn⟩ :=
      refers_of_inlined (ingest_complete h).1 htraced hpackage hm hf hdescribes hinlined
    exact ⟨hrefers, n, hn, htraced.inPlace_or_taken hpackage hinlined hn⟩
  · exact fun hplain _ _ _ => hplain.taken_iff

/-- A document of one object with some properties. -/
def holding (properties : List (String × Schema)) : Document :=
  { openapi := "3.0.0"
    info := ⟨"Things", "", "1"⟩
    servers := []
    paths := []
    schemas := [("M", objectOf properties)] }

/-- An object with one property, which is a string. -/
def objectWith (name : String) : Schema := objectOf [(name, { types := some (.one "string") })]

section Holding

variable {s : Setting}

theorem isPlain_objectWith (name : String) : (objectWith name).IsPlain :=
  ⟨⟨rfl, by simp [objectWith, objectOf]⟩, by simp [objectWith, objectOf, Schema.typeName?], rfl⟩

theorem inline_objectWith (name : String) : Inline s (objectWith name) (objectWith name) :=
  .self (isPlain_objectWith name) (Or.inl rfl) rfl

theorem eq_of_inline_objectWith {name : String} {object : Schema}
    (h : Inline s (objectWith name) object) : object = objectWith name := by
  cases h with
  | self => rfl
  | reference href => cases href
  | sole _ hall => cases hall
  | list _ harray => exact absurd harray (by simp [objectWith, objectOf, Schema.typeName?])
  | map _ _ hmap => cases hmap

theorem not_inline_string {object : Schema} : ¬ Inline s { types := some (.one "string") } object := by
  intro h
  cases h with
  | self _ htype => exact absurd htype (by simp [Schema.typeName?])
  | reference href => cases href
  | sole _ hall => cases hall
  | list _ harray => exact absurd harray (by simp [Schema.typeName?])
  | map _ _ hmap => cases hmap

/-- What holds an object written in place describes a field that refers to its message. -/
theorem describes_objectWith (ownerId name inner : String) :
    Describes s ownerId ⟨name, objectWith inner, false⟩
      (fieldOf ownerId name (objectWith inner) false
        (.message (ownerId ++ "." ++ Text.upperFirst name))) :=
  ⟨_, .nested (isPlain_objectWith inner) (Or.inl rfl) rfl, rfl⟩

end Holding

/-- A home with a street, written in place. -/
def home : Document := holding [("home", objectWith "street")]

/-- The home is the only object written in place. -/
theorem home_inlined {ownerId : String} {part : Part} {object : Schema}
    (h : Inlined (home.setting none none) home.endpoints ownerId part object) :
    part = ⟨"home", objectWith "street", false⟩ ∧ object = objectWith "street" := by
  have hparts : ∀ {id parts}, Origin (home.setting none none) home.endpoints id parts →
      parts = [⟨"home", objectWith "street", false⟩] ∨
        parts = [⟨"street", { types := some (.one "string") }, false⟩] := by
    intro id parts horigin
    induction horigin with
    | component hmem _ hflat =>
        cases List.mem_singleton.1 hmem
        cases hflat
        exact Or.inl rfl
    | nested _ hpart hobject hflat ih =>
        rcases ih with rfl | rfl
        · cases List.mem_singleton.1 hpart
          cases eq_of_inline_objectWith hobject
          cases hflat
          exact Or.inr rfl
        · cases List.mem_singleton.1 hpart
          exact absurd hobject not_inline_string
    | composed he | described he | response he => cases he
  obtain ⟨parts, horigin, hpart, hobject⟩ := h
  rcases hparts horigin with rfl | rfl
  · cases List.mem_singleton.1 hpart
    exact ⟨rfl, eq_of_inline_objectWith hobject⟩
  · cases List.mem_singleton.1 hpart
    exact absurd hobject not_inline_string

theorem plainNames_home : PlainNames (home.setting none none) home.endpoints where
  package := by decide
  top := by
    intro name htop
    cases htop with
    | component hmem =>
        cases List.mem_singleton.1 hmem
        decide
    | request he | response he => cases he
  parts := by
    intro ownerId part object h
    rw [(home_inlined h).1]
    decide

theorem ingest_inlined_home :
    ∃ a m f n, home.ingest none none = .ok a ∧
      ¬ entryLead.toList <+: (packageName none none).toList ∧
      a.table.message? ".openapi.M" = some m ∧ f ∈ m.fields ∧
      Describes (home.setting none none) ".openapi.M" ⟨"home", objectWith "street", false⟩ f ∧
      Inlined (home.setting none none) home.endpoints ".openapi.M"
        ⟨"home", objectWith "street", false⟩ (objectWith "street") ∧
      PlainNames (home.setting none none) home.endpoints ∧ Refers a.table f ".openapi.M.Home" ∧
      a.table.message? ".openapi.M.Home" = some n ∧
      InPlace (home.setting none none) ".openapi.M" "home" (objectWith "street") n := by
  have hseen : ((home.ingest none none).toOption.bind fun a =>
      (a.table.message? ".openapi.M").map (·.fields)) =
      some [fieldOf ".openapi.M" "home" (objectWith "street") false (.message ".openapi.M.Home")] := by
    decide +kernel
  obtain ⟨a, ha, hseen⟩ := Option.bind_eq_some_iff.1 hseen
  obtain ⟨m, hm, hfields⟩ := Option.map_eq_some_iff.1 hseen
  rw [toOption_eq_some_iff] at ha
  have hpackage : ¬ entryLead.toList <+: (packageName none none).toList := by decide
  have hcapital : ".openapi.M" ++ "." ++ Text.upperFirst "home" = ".openapi.M.Home" := by decide
  have hdescribes := describes_objectWith (s := home.setting none none) ".openapi.M" "home" "street"
  have horigin : Origin (home.setting none none) home.endpoints ".openapi.M"
      (Flattened.own (objectOf [("home", objectWith "street")])).parts :=
    @Origin.component _ _ "M" _ _ List.mem_cons_self rfl rfl
  have hinlined : Inlined (home.setting none none) home.endpoints ".openapi.M"
      ⟨"home", objectWith "street", false⟩ (objectWith "street") :=
    ⟨_, horigin, .head _, inline_objectWith "street"⟩
  rw [hcapital] at hdescribes
  have hf : fieldOf ".openapi.M" "home" (objectWith "street") false (.message ".openapi.M.Home") ∈
      m.fields := by
    rw [hfields]
    exact List.mem_singleton_self _
  obtain ⟨hfield, htaken⟩ := ingest_inlined ha hpackage
  obtain ⟨hrefers, n, hn, hplace⟩ := hfield _ m _ _ _ hm hf hdescribes hinlined
  rw [hcapital] at hrefers hn
  refine ⟨a, m, _, n, ha, hpackage, hm, hf, hdescribes, hinlined, plainNames_home, hrefers, hn,
    hplace.resolve_right fun h => ?_⟩
  obtain ⟨other, object', hother, -, hdiffers⟩ := (htaken plainNames_home _ _ _ hinlined).1 h
  obtain ⟨rfl, rfl⟩ := home_inlined hother
  exact hdiffers rfl rfl

/-- Two objects written in place, for fields whose names differ in the case of a letter. -/
def twins : Document := holding [("a", objectWith "x"), ("A", objectWith "y")]

/-- Objects of fields whose capitalised names are the same are given one ID, and the first is lost. -/
theorem ingest_twins :
    ∃ a m f n, twins.ingest none none = .ok a ∧ a.table.message? ".openapi.M" = some m ∧
      f ∈ m.fields ∧
      Describes (twins.setting none none) ".openapi.M" ⟨"a", objectWith "x", false⟩ f ∧
      Inlined (twins.setting none none) twins.endpoints ".openapi.M"
        ⟨"a", objectWith "x", false⟩ (objectWith "x") ∧
      Inlined (twins.setting none none) twins.endpoints ".openapi.M"
        ⟨"A", objectWith "y", false⟩ (objectWith "y") ∧
      f.typeId = ".openapi.M.A" ∧ a.table.message? ".openapi.M.A" = some n ∧
      n.fieldNames = ["y"] ∧
      ¬ InPlace (twins.setting none none) ".openapi.M" "a" (objectWith "x") n := by
  have hseen : ((twins.ingest none none).toOption.bind fun a =>
      (a.table.message? ".openapi.M").bind fun m =>
        (a.table.message? ".openapi.M.A").map fun n => (m.fields, n.fieldNames)) =
      some ([fieldOf ".openapi.M" "a" (objectWith "x") false (.message ".openapi.M.A"),
        fieldOf ".openapi.M" "A" (objectWith "y") false (.message ".openapi.M.A")], ["y"]) := by
    decide +kernel
  obtain ⟨a, ha, hseen⟩ := Option.bind_eq_some_iff.1 hseen
  obtain ⟨m, hm, hseen⟩ := Option.bind_eq_some_iff.1 hseen
  obtain ⟨n, hn, hseen⟩ := Option.map_eq_some_iff.1 hseen
  obtain ⟨hfields, hnames⟩ := Prod.mk.inj hseen
  rw [toOption_eq_some_iff] at ha
  have hcapital : ".openapi.M" ++ "." ++ Text.upperFirst "a" = ".openapi.M.A" := by decide
  have hdescribes := describes_objectWith (s := twins.setting none none) ".openapi.M" "a" "x"
  rw [hcapital] at hdescribes
  have horigin : Origin (twins.setting none none) twins.endpoints ".openapi.M"
      (Flattened.own (objectOf [("a", objectWith "x"), ("A", objectWith "y")])).parts :=
    @Origin.component _ _ "M" _ _ List.mem_cons_self rfl rfl
  refine ⟨a, m, _, n, ha, hm, hfields ▸ List.mem_cons_self, hdescribes,
    ⟨_, horigin, .head _, inline_objectWith "x"⟩,
    ⟨_, horigin, .tail _ (.head _), inline_objectWith "y"⟩, rfl, hn, hnames, ?_⟩
  rintro ⟨-, -, properties, hflat, hmade⟩
  have hx : Flat (twins.setting none none) [objectWith "x"] ([] ++ (objectWith "x").properties ++ []) :=
    .composed rfl .nil .nil
  cases hflat.unique hx
  exact absurd (hnames.symm.trans hmade.names) (by decide)

end OpenApi

end ServiceModel
