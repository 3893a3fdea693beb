import MarineDelivery.ManifestJson

/-!
The delivery file of the command line.

The entries of the file are validated against a union of `Upload` and `Delete` that has no tag:
the field `operation` of both has a default, so that an entry without it is an `Upload`, or a
`Delete` when it cannot be one. The documented schema requires it.
-/

namespace MarineDelivery.DeliveryFile

open MarineDelivery.Errors MarineDelivery.Domain MarineDelivery.Traced MarineDelivery.Models
open MarineDelivery.Common (OperationNames)
open MarineDelivery.ManifestJson

/-! ### The models -/

/-- `list[str]`. -/
def filesField (model : String) (items : List (Value × Value)) :
    Except PyError (List String) :=
  required (missing model "files")
    (asList (notList model "files") (asText (notText model "files"))) (get? "files" items)

/-- `Literal[name]`, with the name as the default. -/
def literalField (model : String) (name : OperationNames) (items : List (Value × Value)) :
    Except PyError OperationNames :=
  defaulted name
    (fun v =>
      if v.isStr (OperationNames.value name) then .ok name
      else .error (.validationError model "operation"
        s!"Input should be '{OperationNames.value name}'"))
    (get? "operation" items)

/-- `len(model_fields_set)`. -/
def fieldsSet (names : List String) (items : List (Value × Value)) : ℕ :=
  names.countP fun name => (get? name items).isSome

/-- An `Upload`, and how many of its fields are set. -/
def Upload.modelValidate (v : Value) : Except PyError (Upload × ℕ) := do
  let items ← asItems (notDict "Upload") v
  let files ← filesField "Upload" items
  let _ ← literalField "Upload" .upload items
  let anchor ← optionalField "Upload" "anchor" items
  return ({ files, anchor }, fieldsSet ["files", "operation", "anchor"] items)

def Delete.modelValidate (v : Value) : Except PyError (Delete × ℕ) := do
  let items ← asItems (notDict "Delete") v
  let files ← filesField "Delete" items
  let _ ← literalField "Delete" .delete items
  return ({ files }, fieldsSet ["files", "operation"] items)

/-- `Upload | Delete`. -/
def operationOf (v : Value) : Except PyError RequestedOperation :=
  preferred ((Upload.modelValidate v).map fun x => (.upload x.1, x.2))
    ((Delete.modelValidate v).map fun x => (.delete x.1, x.2))

/-- `DeliveryFile.model_validate`. -/
def modelValidate (v : Value) : Except PyError (List RequestedOperation) := do
  let items ← asItems (notDict "DeliveryFile") v
  required (missing "DeliveryFile" "delivery")
    (asList (notList "DeliveryFile" "delivery") operationOf) (get? "delivery" items)

/-! ### The documented schema -/

/-- What an entry of the schema asks for. -/
inductive Describes : Value → RequestedOperation → Prop
  | upload {items : List (Value × Value)} {files : List String} {anchor : Option String}
    (hoperation : get? "operation" items = some (.str "upload"))
    (hfiles : get? "files" items = some (.list (files.map .str)))
    (hanchor : (get? "anchor" items).getD .null = dumpNullable .str anchor) :
    Describes (.dict items) (.upload ⟨files, anchor⟩)
  | delete {items : List (Value × Value)} {files : List String}
    (hoperation : get? "operation" items = some (.str "delete"))
    (hfiles : get? "files" items = some (.list (files.map .str))) :
    Describes (.dict items) (.delete ⟨files⟩)

/-- The entries of a value, if it is of the schema. -/
def Entries (v : Value) (entries : List Value) : Prop :=
  ∃ items, v = .dict items ∧ get? "delivery" items = some (.list entries)

def Documented (v : Value) : Prop :=
  ∃ entries, Entries v entries ∧ ∀ entry ∈ entries, ∃ op, Describes entry op

/-- Exactly the values of the schema are accepted, and they are read entry by entry. -/
structure AsDocumented (v : Value) : Prop where
  accepts : (∃ ops, modelValidate v = .ok ops) ↔ Documented v
  reads : ∀ ops, modelValidate v = .ok ops →
    ∃ entries, Entries v entries ∧ List.Forall₂ Describes entries ops

/-! ### What is tolerated -/

/-- A list of texts, or something that can be taken for one. -/
def TextList (v : Value) : Prop :=
  ∃ elements, v.elements? = some elements ∧ ∀ x ∈ elements, x.text?.isSome = true

/-- An entry of the schema, but for `operation`, which may be missing, and with everything
that can be taken for a string or for a list. -/
def Tolerated (v : Value) : Prop :=
  ∃ items files, v = .dict items ∧ get? "files" items = some files ∧ TextList files ∧
    (get? "operation" items = none ∨ get? "operation" items = some (.str "delete") ∨
      get? "operation" items = some (.str "upload") ∧
        ((get? "anchor" items).getD .null = .null ∨
          ((get? "anchor" items).getD .null).text?.isSome = true))

/-- All entries are tolerated. -/
def Lenient (v : Value) : Prop :=
  ∃ items delivery entries, v = .dict items ∧ get? "delivery" items = some delivery ∧
    delivery.elements? = some entries ∧ ∀ entry ∈ entries, Tolerated entry

/-- Neither a list nor a string is another type, and `operation` is not missing. -/
structure PlainEntry (items : List (Value × Value)) : Prop where
  operation : get? "operation" items ≠ none
  files : ∃ elements, get? "files" items = some (.list elements) ∧
    ∀ data, .bytes data ∉ elements
  anchor : get? "operation" items = some (.str "upload") →
    ∀ data, get? "anchor" items ≠ some (.bytes data)

/-- The same for the whole file. -/
def Plain (v : Value) : Prop :=
  ∀ items delivery, v = .dict items → get? "delivery" items = some delivery →
    ∃ entries, delivery = .list entries ∧ ∀ fields, .dict fields ∈ entries → PlainEntry fields

/-! ### The fields of an entry -/

section

variable {model : String} {items : List (Value × Value)} {files : List String}

lemma filesField_ok_iff :
    filesField model items = .ok files ↔ ∃ v elements, get? "files" items = some v ∧
      v.elements? = some elements ∧
        List.Forall₂ (fun x s => x.text? = some s) elements files := by
  unfold filesField
  simp only [required_ok_iff, asList_ok_iff, mapM_ok_iff, asText_ok_iff, Option.mem_def]
  constructor
  · rintro ⟨v, hv, elements, he, h⟩
    exact ⟨v, elements, hv, he, h⟩
  · rintro ⟨v, elements, hv, he, h⟩
    exact ⟨v, hv, elements, he, h⟩

lemma filesField_isOk_iff :
    (∃ files, filesField model items = .ok files) ↔
      ∃ v, get? "files" items = some v ∧ TextList v := by
  simp only [filesField_ok_iff]
  constructor
  · rintro ⟨files, v, elements, hv, he, h⟩
    refine ⟨v, hv, elements, he, fun x hx => ?_⟩
    obtain ⟨s, -, hs⟩ := forall₂_left h hx
    rw [hs]
    rfl
  · rintro ⟨v, hv, elements, he, h⟩
    obtain ⟨files, hfiles⟩ := exists_forall₂ fun x hx => Option.isSome_iff_exists.mp (h x hx)
    exact ⟨files, v, elements, hv, he, hfiles⟩

lemma literalField_isOk_iff {name : OperationNames} :
    (∃ n, literalField model name items = .ok n) ↔ get? "operation" items = none ∨
      get? "operation" items = some (.str (OperationNames.value name)) := by
  unfold literalField
  cases get? "operation" items with
  | none => simp [defaulted]
  | some v =>
      rw [defaulted]
      by_cases h : v.isStr (OperationNames.value name) = true
      · exact ⟨fun _ => .inr (congrArg some (isStr_iff.mp h)), fun _ => ⟨name, if_pos h⟩⟩
      · simp only [if_neg h, reduceCtorEq, exists_false, Option.some.injEq, false_or, false_iff]
        exact isStr_iff.not.mp h

lemma optionalField_isOk_iff {field : String} :
    (∃ a, optionalField model field items = .ok a) ↔
      (get? field items).getD .null = .null ∨
        ((get? field items).getD .null).text?.isSome = true := by
  unfold optionalField
  cases get? field items with
  | none => simp [defaulted]
  | some v =>
      rw [defaulted, Option.getD_some]
      exact nullable_text_isOk_iff

end

/-! ### The entries -/

lemma uploadModelValidate_ok_iff {v : Value} {u : Upload} {n : ℕ} :
    Upload.modelValidate v = .ok (u, n) ↔ ∃ items, v = .dict items ∧
      filesField "Upload" items = .ok u.files ∧
      (∃ name, literalField "Upload" .upload items = .ok name) ∧
      optionalField "Upload" "anchor" items = .ok u.anchor ∧
      n = fieldsSet ["files", "operation", "anchor"] items := by
  unfold Upload.modelValidate
  simp only [bind_eq_ok, asItems_ok_iff, items?_eq_some_iff, pure_eq_ok]
  constructor
  · rintro ⟨items, hv, files, hfiles, name, hname, anchor, hanchor, he⟩
    cases he
    exact ⟨items, hv, hfiles, ⟨name, hname⟩, hanchor, rfl⟩
  · rintro ⟨items, hv, hfiles, ⟨name, hname⟩, hanchor, rfl⟩
    exact ⟨items, hv, u.files, hfiles, name, hname, u.anchor, hanchor, rfl⟩

lemma deleteModelValidate_ok_iff {v : Value} {d : Delete} {n : ℕ} :
    Delete.modelValidate v = .ok (d, n) ↔ ∃ items, v = .dict items ∧
      filesField "Delete" items = .ok d.files ∧
      (∃ name, literalField "Delete" .delete items = .ok name) ∧
      n = fieldsSet ["files", "operation"] items := by
  unfold Delete.modelValidate
  simp only [bind_eq_ok, asItems_ok_iff, items?_eq_some_iff, pure_eq_ok]
  constructor
  · rintro ⟨items, hv, files, hfiles, name, hname, he⟩
    cases he
    exact ⟨items, hv, hfiles, ⟨name, hname⟩, rfl⟩
  · rintro ⟨items, hv, hfiles, ⟨name, hname⟩, rfl⟩
    exact ⟨items, hv, d.files, hfiles, name, hname, rfl⟩

lemma uploadModelValidate_isOk_iff {v : Value} :
    (∃ x, Upload.modelValidate v = .ok x) ↔ ∃ items files, v = .dict items ∧
      get? "files" items = some files ∧ TextList files ∧
      (get? "operation" items = none ∨ get? "operation" items = some (.str "upload")) ∧
      ((get? "anchor" items).getD .null = .null ∨
        ((get? "anchor" items).getD .null).text?.isSome = true) := by
  constructor
  · rintro ⟨⟨u, n⟩, h⟩
    obtain ⟨items, hv, hfiles, hname, hanchor, -⟩ := uploadModelValidate_ok_iff.mp h
    obtain ⟨files, hget, htexts⟩ := filesField_isOk_iff.mp ⟨_, hfiles⟩
    exact ⟨items, files, hv, hget, htexts, literalField_isOk_iff.mp hname,
      optionalField_isOk_iff.mp ⟨_, hanchor⟩⟩
  · rintro ⟨items, files, hv, hget, htexts, hname, hanchor⟩
    obtain ⟨texts, hfiles⟩ := filesField_isOk_iff.mpr ⟨files, hget, htexts⟩
    obtain ⟨anchor, hanchor⟩ := optionalField_isOk_iff.mpr hanchor
    exact ⟨(⟨texts, anchor⟩, _), uploadModelValidate_ok_iff.mpr
      ⟨items, hv, hfiles, literalField_isOk_iff.mpr hname, hanchor, rfl⟩⟩

lemma deleteModelValidate_isOk_iff {v : Value} :
    (∃ x, Delete.modelValidate v = .ok x) ↔ ∃ items files, v = .dict items ∧
      get? "files" items = some files ∧ TextList files ∧
      (get? "operation" items = none ∨ get? "operation" items = some (.str "delete")) := by
  constructor
  · rintro ⟨⟨d, n⟩, h⟩
    obtain ⟨items, hv, hfiles, hname, -⟩ := deleteModelValidate_ok_iff.mp h
    obtain ⟨files, hget, htexts⟩ := filesField_isOk_iff.mp ⟨_, hfiles⟩
    exact ⟨items, files, hv, hget, htexts, literalField_isOk_iff.mp hname⟩
  · rintro ⟨items, files, hv, hget, htexts, hname⟩
    obtain ⟨texts, hfiles⟩ := filesField_isOk_iff.mpr ⟨files, hget, htexts⟩
    exact ⟨(⟨texts⟩, _), deleteModelValidate_ok_iff.mpr
      ⟨items, hv, hfiles, literalField_isOk_iff.mpr hname, rfl⟩⟩

lemma map_isOk_iff {ε α β : Type} {f : α → β} {x : Except ε α} :
    (∃ b, x.map f = .ok b) ↔ ∃ a, x = .ok a := by
  cases x <;> simp [Except.map]

/-- An entry is accepted as soon as it is tolerated. -/
lemma operationOf_isOk_iff {v : Value} : (∃ op, operationOf v = .ok op) ↔ Tolerated v := by
  rw [operationOf, preferred_isOk_iff, map_isOk_iff, map_isOk_iff, uploadModelValidate_isOk_iff,
    deleteModelValidate_isOk_iff]
  constructor
  · rintro (⟨items, files, hv, hget, htexts, hname, hanchor⟩ | ⟨items, files, hv, hget, htexts,
      hname⟩)
    · exact ⟨items, files, hv, hget, htexts, hname.imp_right fun h => .inr ⟨h, hanchor⟩⟩
    · exact ⟨items, files, hv, hget, htexts, hname.imp_right .inl⟩
  · rintro ⟨items, files, hv, hget, htexts, hname | hname | ⟨hname, hanchor⟩⟩
    · exact .inr ⟨items, files, hv, hget, htexts, .inl hname⟩
    · exact .inr ⟨items, files, hv, hget, htexts, .inr hname⟩
    · exact .inl ⟨items, files, hv, hget, htexts, .inr hname, hanchor⟩

/-- Files that are plain are read as they are. -/
lemma files_of_plain {model : String} {items : List (Value × Value)} {files : List String}
    (hplain : PlainEntry items) (h : filesField model items = .ok files) :
    get? "files" items = some (.list (files.map .str)) := by
  obtain ⟨v, elements, hget, he, htexts⟩ := filesField_ok_iff.mp h
  obtain ⟨listed, hlisted, hbytes⟩ := hplain.files
  rw [hget] at hlisted
  cases hlisted
  cases he
  rw [hget]
  congr 2
  clear hget h hplain
  induction htexts with
  | nil => rfl
  | @cons x s l l' hx _ ih =>
      obtain ⟨hnot, hrest⟩ : (∀ data, x ≠ .bytes data) ∧ ∀ data, .bytes data ∉ l := by
        simp only [List.mem_cons, not_or] at hbytes
        exact ⟨fun data he => (hbytes data).1 he.symm, fun data => (hbytes data).2⟩
      have hstr : x = .str s := by
        cases x with
        | str t => cases hx; rfl
        | bytes data => exact absurd rfl (hnot data)
        | null | bool | int | float | date | list | set | tuple | dict => cases hx
      rw [List.map_cons, ← ih hrest, hstr]

lemma map_eq_ok {ε α β : Type} {f : α → β} {x : Except ε α} {b : β} (h : x.map f = .ok b) :
    ∃ a, x = .ok a ∧ f a = b := by
  cases x with
  | error e => cases h
  | ok a => exact ⟨a, rfl, Except.ok.inj h⟩

/-- A plain entry is read as the schema says. -/
lemma describes_of_plain {items : List (Value × Value)} {op : RequestedOperation}
    (hplain : PlainEntry items) (h : operationOf (.dict items) = .ok op) :
    Describes (.dict items) op := by
  rcases preferred_ok h with ⟨n, hleft⟩ | ⟨n, hright⟩
  · obtain ⟨⟨u, k⟩, hu, he⟩ := map_eq_ok hleft
    cases he
    obtain ⟨fields, hfields, hfiles, hname, hanchor, -⟩ := uploadModelValidate_ok_iff.mp hu
    cases hfields
    have hoperation := (literalField_isOk_iff.mp hname).resolve_left hplain.operation
    refine .upload hoperation (files_of_plain hplain hfiles) ?_
    unfold optionalField at hanchor
    cases hget : get? "anchor" items with
    | none =>
        rw [hget] at hanchor
        rw [← Except.ok.inj hanchor]
        rfl
    | some a =>
        rw [hget] at hanchor
        refine eq_dumpNullable_of_ok (fun data ha => ?_) hanchor
        exact hplain.anchor hoperation data (hget.trans (congrArg some ha))
  · obtain ⟨⟨d, k⟩, hd, he⟩ := map_eq_ok hright
    cases he
    obtain ⟨fields, hfields, hfiles, hname, -⟩ := deleteModelValidate_ok_iff.mp hd
    cases hfields
    have hoperation := (literalField_isOk_iff.mp hname).resolve_left hplain.operation
    exact .delete hoperation (files_of_plain hplain hfiles)

lemma textList_map_str (files : List String) : TextList (.list (files.map .str)) := by
  refine ⟨_, rfl, fun x hx => ?_⟩
  obtain ⟨s, -, rfl⟩ := List.mem_map.mp hx
  rfl

lemma Describes.tolerated {v : Value} {op : RequestedOperation} (h : Describes v op) :
    Tolerated v := by
  cases h with
  | @upload items files anchor hoperation hfiles hanchor =>
      refine ⟨items, _, rfl, hfiles, textList_map_str files, .inr (.inr ⟨hoperation, ?_⟩)⟩
      rw [hanchor]
      cases anchor with
      | none => exact .inl rfl
      | some a => exact .inr rfl
  | @delete items files hoperation hfiles =>
      exact ⟨items, _, rfl, hfiles, textList_map_str files, .inr (.inl hoperation)⟩

lemma Describes.plain {items : List (Value × Value)} {op : RequestedOperation}
    (h : Describes (.dict items) op) : PlainEntry items := by
  have hbytes : ∀ (files : List String) data, Value.bytes data ∉ files.map .str := by
    intro files data hmem
    obtain ⟨s, -, hs⟩ := List.mem_map.mp hmem
    cases hs
  cases h with
  | @upload _ files anchor hoperation hfiles hanchor =>
      refine ⟨by simp [hoperation], ⟨_, hfiles, hbytes files⟩, fun _ data hdata => ?_⟩
      rw [hdata] at hanchor
      cases anchor <;> cases hanchor
  | @delete _ files hoperation hfiles =>
      refine ⟨by simp [hoperation], ⟨_, hfiles, hbytes files⟩, fun hupload => ?_⟩
      rw [hoperation] at hupload
      exact absurd hupload (by simp)

/-! ### The file -/

lemma modelValidate_ok_iff {v : Value} {ops : List RequestedOperation} :
    modelValidate v = .ok ops ↔ ∃ items delivery entries, v = .dict items ∧
      get? "delivery" items = some delivery ∧ delivery.elements? = some entries ∧
        List.Forall₂ (fun entry op => operationOf entry = .ok op) entries ops := by
  unfold modelValidate
  simp only [bind_eq_ok, asItems_ok_iff, items?_eq_some_iff, required_ok_iff, asList_ok_iff,
    mapM_ok_iff, Option.mem_def]
  constructor
  · rintro ⟨items, hv, delivery, hd, entries, he, h⟩
    exact ⟨items, delivery, entries, hv, hd, he, h⟩
  · rintro ⟨items, delivery, entries, hv, hd, he, h⟩
    exact ⟨items, hv, delivery, hd, entries, he, h⟩

lemma modelValidate_isOk_iff {v : Value} : (∃ ops, modelValidate v = .ok ops) ↔ Lenient v := by
  simp only [modelValidate_ok_iff]
  constructor
  · rintro ⟨ops, items, delivery, entries, hv, hd, he, h⟩
    refine ⟨items, delivery, entries, hv, hd, he, fun entry hentry => ?_⟩
    obtain ⟨op, -, hop⟩ := forall₂_left h hentry
    exact operationOf_isOk_iff.mp ⟨op, hop⟩
  · rintro ⟨items, delivery, entries, hv, hd, he, h⟩
    obtain ⟨ops, hops⟩ := exists_forall₂ fun entry hentry =>
      operationOf_isOk_iff.mpr (h entry hentry)
    exact ⟨ops, items, delivery, entries, hv, hd, he, hops⟩

lemma Documented.lenient {v : Value} (h : Documented v) : Lenient v := by
  obtain ⟨entries, ⟨items, hv, hd⟩, h⟩ := h
  refine ⟨items, _, entries, hv, hd, rfl, fun entry hentry => ?_⟩
  obtain ⟨op, hop⟩ := h entry hentry
  exact hop.tolerated

lemma Documented.plain {v : Value} (h : Documented v) : Plain v := by
  obtain ⟨entries, ⟨items, rfl, hd⟩, h⟩ := h
  intro items' delivery hv hd'
  cases hv
  rw [hd] at hd'
  cases hd'
  refine ⟨entries, rfl, fun fields hfields => ?_⟩
  obtain ⟨op, hop⟩ := h _ hfields
  exact hop.plain

lemma forall₂_describes {entries : List Value} {ops : List RequestedOperation}
    (hplain : ∀ fields, .dict fields ∈ entries → PlainEntry fields)
    (h : List.Forall₂ (fun entry op => operationOf entry = .ok op) entries ops) :
    List.Forall₂ Describes entries ops := by
  induction h with
  | nil => exact .nil
  | cons hop _ ih =>
      obtain ⟨fields, files, rfl, -⟩ := operationOf_isOk_iff.mp ⟨_, hop⟩
      have hentry := hplain fields List.mem_cons_self
      exact .cons (describes_of_plain hentry hop)
        (ih fun fields hfields => hplain fields (List.mem_cons_of_mem _ hfields))

/-- A plain file is read entry by entry. -/
lemma reads_of_plain {v : Value} {ops : List RequestedOperation} (hplain : Plain v)
    (h : modelValidate v = .ok ops) :
    ∃ entries, Entries v entries ∧ List.Forall₂ Describes entries ops := by
  obtain ⟨items, delivery, entries, rfl, hd, he, h⟩ := modelValidate_ok_iff.mp h
  obtain ⟨listed, rfl, hentries⟩ := hplain items delivery rfl hd
  obtain rfl : listed = entries := Option.some.inj he
  exact ⟨listed, ⟨items, rfl, hd⟩, forall₂_describes hentries h⟩

/-- **When a delivery file is read as documented.** Exactly the files of the schema are accepted
and read entry by entry, unless all entries are tolerated and some entry leaves out `operation`
or something is not a list or a string but is taken for one. -/
theorem asDocumented_iff (v : Value) : AsDocumented v ↔ (Lenient v → Plain v) := by
  constructor
  · intro h hlenient
    exact (h.accepts.mp (modelValidate_isOk_iff.mpr hlenient)).plain
  · intro h
    refine ⟨⟨fun hok => ?_, fun hdoc => modelValidate_isOk_iff.mpr hdoc.lenient⟩,
      fun ops hops => reads_of_plain (h (modelValidate_isOk_iff.mp ⟨ops, hops⟩)) hops⟩
    obtain ⟨ops, hops⟩ := hok
    obtain ⟨entries, hentries, hall⟩ :=
      reads_of_plain (h (modelValidate_isOk_iff.mp ⟨ops, hops⟩)) hops
    refine ⟨entries, hentries, fun entry hentry => ?_⟩
    obtain ⟨op, -, hop⟩ := forall₂_left hall hentry
    exact ⟨op, hop⟩

/-- A requested delete without `operation`. -/
def exampleFile : Value :=
  .dict [(.str "delivery", .list [.dict [(.str "files", .list [.str "2024/01/old.nc"])]])]

/-- It is accepted, and becomes an upload. -/
theorem not_asDocumented_missing :
    modelValidate exampleFile = .ok [.upload ⟨["2024/01/old.nc"], none⟩] ∧
      ¬ AsDocumented exampleFile := by
  have hok : modelValidate exampleFile = .ok [.upload ⟨["2024/01/old.nc"], none⟩] := by
    decide +kernel
  refine ⟨hok, fun h => ?_⟩
  obtain ⟨entries, ⟨items, hv, hd⟩, hall⟩ := h.accepts.mp ⟨_, hok⟩
  cases hv
  cases hd
  obtain ⟨op, hop⟩ := hall _ List.mem_cons_self
  cases hop with
  | upload hoperation hfiles hanchor => cases hoperation
  | delete hoperation hfiles => cases hoperation

end MarineDelivery.DeliveryFile
