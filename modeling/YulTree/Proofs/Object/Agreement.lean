import Mathlib.Data.List.Nodup
import YulTree.Proofs.Object.Built
import YulTree.Proofs.Reader.Soundness
import YulTree.Proofs.Reader.Stable

/-!
# Trees that agree

Two trees agree if they have the same names, nodes, byte strings, tables of sources and code in all
their positions.  If their code is text, this is so exactly if they are shown as the same value, and
then they are printed alike (`toJson_alike_iff`).
-/

namespace YulTree

namespace Json

mutual

/-- A value with the fields of all objects in the order of their names. -/
def sorted : Json → Json
  | .null => .null
  | .bool value => .bool value
  | .number digits decimals => .number digits decimals
  | .string text => .string text
  | .array items => .array (sortedItems items)
  | .object fields => .object (OrderedMap.ofList (sortedFields fields)).entries

def sortedItems : List Json → List Json
  | [] => []
  | item :: rest => sorted item :: sortedItems rest

def sortedFields : List (Text × Json) → List (Text × Json)
  | [] => []
  | (name, value) :: rest => (name, sorted value) :: sortedFields rest

end

/-- Two values differ in the order of fields at most. -/
def Alike (first second : Json) : Prop := first.sorted = second.sorted

def field? (name : Text) : Json → Option Json
  | .object fields => fields.lookup name
  | _ => none

theorem sortedItems_eq_map (items : List Json) : sortedItems items = items.map sorted := by
  induction items with
  | nil => rfl
  | cons item rest inductionHypothesis => rw [sortedItems, inductionHypothesis, List.map_cons]

theorem sortedFields_eq_map (fields : List (Text × Json)) :
    sortedFields fields = fields.map fun field => (field.1, field.2.sorted) := by
  induction fields with
  | nil => rfl
  | cons field rest inductionHypothesis =>
      obtain ⟨name, value⟩ := field
      rw [sortedFields, inductionHypothesis, List.map_cons]

/-- Objects without two fields of one name are alike if they have alike fields, in any order. -/
theorem alike_object_iff {first second : List (Text × Json)}
    (firstDistinct : (first.map Prod.fst).Nodup) (secondDistinct : (second.map Prod.fst).Nodup) :
    Alike (.object first) (.object second) ↔
      ∀ entry, entry ∈ sortedFields first ↔ entry ∈ sortedFields second := by
  have names (fields : List (Text × Json)) :
      (sortedFields fields).map Prod.fst = fields.map Prod.fst := by
    rw [sortedFields_eq_map, List.map_map]
    rfl
  rw [← names] at firstDistinct secondDistinct
  constructor
  · intro alike entry
    have sameMap := OrderedMap.ext (Json.object.inj alike)
    rw [← OrderedMap.get?_ofList firstDistinct, ← OrderedMap.get?_ofList secondDistinct, sameMap]
  · intro sameMembers
    have sameMap : OrderedMap.ofList (sortedFields first) =
        OrderedMap.ofList (sortedFields second) := by
      refine OrderedMap.ext_get? fun name => Option.ext fun value => ?_
      rw [OrderedMap.get?_ofList firstDistinct, OrderedMap.get?_ofList secondDistinct,
        sameMembers]
    exact congrArg Json.object (congrArg OrderedMap.entries sameMap)

end Json

theorem Bytes.toHex_inj {first second : Bytes} (same : first.toHex = second.toHex) :
    first = second := by
  have read := congrArg ofHex? same
  rw [ofHex?_toHex, ofHex?_toHex] at read
  exact Option.some.inj read

theorem Text.ofNat_inj {m n : Nat} (same : Text.ofNat m = Text.ofNat n) : m = n := by
  have read := congrArg Text.toNat? same
  rw [Text.toNat?_ofNat, Text.toNat?_ofNat] at read
  exact Option.some.inj read

/-- Lines in normal form are known from the text that they make up: a text without characters is
that of no lines, not of an empty one. -/
theorem Block.eq_of_text_eq {first second : Block} (firstNormal : IsNormal first.lines)
    (secondNormal : IsNormal second.lines) (same : first.text = second.text) : first = second := by
  have notEmptyLine : ∀ {lines : List Text}, IsNormal lines → Text.ofLines lines = [] →
      lines = [] := by
    intro lines normal empty
    by_contra nonempty
    have split := Text.lines_ofLines nonempty normal.unbroken
    rw [empty] at split
    exact normal.starts (by rw [← split]; rfl)
  obtain ⟨firstLines⟩ := first
  obtain ⟨secondLines⟩ := second
  have sameText : Text.ofLines firstLines = Text.ofLines secondLines := same
  by_cases firstEmpty : firstLines = []
  · subst firstEmpty
    exact congrArg Block.mk (notEmptyLine secondNormal sameText.symm).symm
  · by_cases secondEmpty : secondLines = []
    · subst secondEmpty
      exact absurd (notEmptyLine firstNormal sameText) firstEmpty
    · rw [← Text.lines_ofLines firstEmpty firstNormal.unbroken, sameText,
        Text.lines_ofLines secondEmpty secondNormal.unbroken]

/-- The fields for the entries of a table, in which names are texts and so have no fields. -/
theorem SourceTable.mem_fields_iff {table : SourceTable} {index : UInt32} {name : Text} :
    (Text.ofNat index.toNat, Json.string name) ∈
        Json.sortedFields
          (table.entries.map fun entry => (Text.ofNat entry.1.toNat, Json.string entry.2)) ↔
      (index, name) ∈ table.entries := by
  rw [Json.sortedFields_eq_map, List.map_map, List.mem_map]
  constructor
  · rintro ⟨⟨other, otherName⟩, member, same⟩
    simp only [Function.comp_apply, Json.sorted, Prod.mk.injEq, Json.string.injEq] at same
    rw [UInt32.toNat_inj.mp (Text.ofNat_inj same.1), same.2] at member
    exact member
  · intro member
    exact ⟨(index, name), member, rfl⟩

theorem SourceTable.eq_of_toJson_alike {first second : SourceTable}
    (alike : Json.Alike first.toJson second.toJson) : first = second := by
  have distinct (table : SourceTable) :
      ((table.entries.map fun entry =>
        (Text.ofNat entry.1.toNat, Json.string entry.2)).map Prod.fst).Nodup := by
    have injective : Function.Injective fun index : UInt32 => Text.ofNat index.toNat :=
      fun _ _ same => UInt32.toNat_inj.mp (Text.ofNat_inj same)
    have keys := List.Nodup.map injective table.nodup_keys
    rw [OrderedMap.keys, List.map_map] at keys
    rw [List.map_map]
    exact keys
  have sameFields := (Json.alike_object_iff (distinct first) (distinct second)).mp alike
  refine OrderedMap.ext (OrderedMap.eq_of_mem_iff first.ascending second.ascending ?_)
  rintro ⟨index, name⟩
  rw [← mem_fields_iff, sameFields, mem_fields_iff]

namespace Object

def codeJson (payload : Payload) : Json :=
  .object [("nodeType", .string "YulCode"), ("block", Code.toJson payload)]

theorem field?_toJson (object : Object Payload) :
    object.toJson.sorted.field? "nodeType" = some (.string "YulObject") ∧
      object.toJson.sorted.field? "name" = some (.string object.name) ∧
      object.toJson.sorted.field? "subObjects" =
        some (.array ((toJsonAll object.children).map Json.sorted)) ∧
      object.toJson.sorted.field? "code" =
        object.code.map (fun payload => (codeJson payload).sorted) ∧
      object.toJson.sorted.field? "sourceNames" =
        object.table.map (fun table => table.toJson.sorted) := by
  obtain ⟨name, code, analysis, debug, slot, children⟩ := object
  rw [← Json.sortedItems_eq_map]
  unfold Object.table toJson sourcesField
  simp only
  cases code <;> cases debug.bind DebugBundle.table <;> exact ⟨rfl, rfl, rfl, rfl, rfl⟩

/-! ## Agreement -/

mutual

/-- Two trees have the same names, code, tables of sources and nodes in all their positions.  Code
is the same if it is missing, or text with the same lines; a missing table is not an empty one. -/
inductive Agrees : Object Payload → Object Payload → Prop
  | intro {first second : Object Payload} :
      first.name = second.name →
      first.code.map Payload.content = second.code.map Payload.content →
      first.table = second.table →
      AgreesAll first.children second.children → Agrees first second

inductive AgreesAll : List (Node Payload) → List (Node Payload) → Prop
  | nil : AgreesAll [] []
  | data (entry : Data) {rest others : List (Node Payload)} :
      AgreesAll rest others → AgreesAll (.data entry :: rest) (.data entry :: others)
  | object {nested other : Object Payload} {rest others : List (Node Payload)} :
      Agrees nested other → AgreesAll rest others →
      AgreesAll (.object nested :: rest) (.object other :: others)

end

/-- Code that looks the same in one view looks the same in another, if the one determines the
other. -/
theorem map_eq_of_map_eq {α β : Type} {view : Payload → α} {other : Payload → β}
    {code otherCode : Option Payload}
    (determines : ∀ payload ∈ code, ∀ twin ∈ otherCode, view payload = view twin →
      other payload = other twin)
    (same : code.map view = otherCode.map view) : code.map other = otherCode.map other := by
  cases code with
  | none =>
      cases otherCode with
      | none => rfl
      | some twin => cases same
  | some payload =>
      cases otherCode with
      | none => cases same
      | some twin => exact congrArg some (determines payload rfl twin rfl (Option.some.inj same))

theorem codeField_eq_map (code : Option Payload) :
    codeField code =
      (code.map fun payload => (("code" : Text), codeJson payload)).toList := by
  cases code <;> rfl

mutual

/-- Trees that agree are shown as one value. -/
theorem toJson_of_agrees : ∀ {first second : Object Payload}, first.Agrees second →
    first.toJson = second.toJson
  | ⟨name, code, _, debug, _, children⟩, ⟨otherName, otherCode, _, otherDebug, _, others⟩,
      .intro sameName sameCode sameTable sameChildren => by
      have sameCodeField : codeField code = codeField otherCode := by
        rw [codeField_eq_map, codeField_eq_map]
        refine congrArg Option.toList (map_eq_of_map_eq ?_ sameCode)
        intro payload _ other _ same
        simp only [codeJson, Code.toJson, Payload.toJson, same]
      obtain rfl : name = otherName := sameName
      have sameSources : sourcesField debug = sourcesField otherDebug := by
        unfold sourcesField
        rw [show debug.bind DebugBundle.table = otherDebug.bind DebugBundle.table from sameTable]
      rw [toJson, toJson, sameCodeField, sameSources, toJsonAll_of_agrees sameChildren]

theorem toJsonAll_of_agrees : ∀ {first second : List (Node Payload)}, AgreesAll first second →
    toJsonAll first = toJsonAll second
  | _, _, .nil => rfl
  | _, _, .data entry agree => congrArg (entry.toJson :: ·) (toJsonAll_of_agrees agree)
  | _, _, .object agree others =>
      congrArg₂ List.cons (toJson_of_agrees agree) (toJsonAll_of_agrees others)

end

theorem isEmpty_of_agreesAll {first second : List (Node Payload)} (agree : AgreesAll first second) :
    first.isEmpty = second.isEmpty := by
  cases agree <;> rfl

mutual

/-- Trees that agree have one text in every context. -/
theorem text_of_agrees (useSrc : Bool) (context : Context) : ∀ {first second : Object Payload},
    first.Agrees second → first.text useSrc context = second.text useSrc context
  | first, second, .intro sameName sameCode sameTable sameChildren => by
      have sameContext : context.enter first.debug = context.enter second.debug :=
        congrArg (fun table => { context with table := table.or context.table }) sameTable
      have sameLine : pragmaLine first.debug = pragmaLine second.debug := by
        unfold pragmaLine
        rw [show first.debug.bind DebugBundle.table = second.debug.bind DebugBundle.table from
          sameTable]
      have samePrinted : first.code.map (Code.print (context.enter second.debug)) =
          second.code.map (Code.print (context.enter second.debug)) := by
        refine map_eq_of_map_eq ?_ sameCode
        intro payload _ other _ same
        simp only [Code.print, Payload.print, same]
      have sameEmpty := isEmpty_of_agreesAll sameChildren
      rw [text_eq, text_eq, sameLine, sameContext, sameName, samePrinted, sameEmpty,
        texts_of_agrees useSrc (context.enter second.debug) sameChildren]

theorem texts_of_agrees (useSrc : Bool) (context : Context) :
    ∀ {first second : List (Node Payload)}, AgreesAll first second →
      texts useSrc context first = texts useSrc context second
  | _, _, .nil => rfl
  | _, _, .data entry agree => congrArg (entry.render :: ·) (texts_of_agrees useSrc context agree)
  | _, _, .object agree others =>
      congrArg₂ List.cons (text_of_agrees useSrc context agree)
        (texts_of_agrees useSrc context others)

end

theorem print_of_agrees {first second : Object Payload} (agree : first.Agrees second)
    (selection : Selection) (sources : SourceProvider) :
    first.print selection sources = second.print selection sources := by
  rw [print_eq_text, print_eq_text]
  exact text_of_agrees selection.useSrc ⟨selection, sources, none⟩ agree

end Object

/-- A payload that was made from a code body. -/
def Payload.IsText (payload : Payload) : Prop :=
  ∃ body : Text, payload.content = .block (.ofBody body)

theorem Payload.isText_of_isPrintable {payload : Payload} (printable : payload.IsPrintable) :
    payload.IsText := by
  obtain ⟨block, content, blockPrintable⟩ := printable
  exact ⟨block.bodyAt 0, by
    rw [content, Block.ofBody, Block.normalize_bodyAt blockPrintable.normal]⟩

namespace Object

theorem text_codeJson {payload : Payload} {block : Block} (content : payload.content = .block block) :
    ((codeJson payload).sorted.field? "block").bind (Json.field? "text") =
      some (.string block.text) := by
  obtain ⟨content, dialect⟩ := payload
  subst content
  rfl

/-- Text is known from the value that shows it. -/
theorem content_eq_of_sorted_eq {payload other : Payload} (isText : payload.IsText)
    (otherIsText : other.IsText) (same : (codeJson payload).sorted = (codeJson other).sorted) :
    payload.content = other.content := by
  obtain ⟨body, content⟩ := isText
  obtain ⟨otherBody, otherContent⟩ := otherIsText
  have sameText := text_codeJson content
  rw [same, text_codeJson otherContent] at sameText
  rw [content, otherContent]
  refine congrArg Payload.Content.block (Block.eq_of_text_eq (Block.isNormal_normalize body)
    (Block.isNormal_normalize otherBody) ?_)
  exact (Json.string.inj (Option.some.inj sameText)).symm

theorem code_agrees {code otherCode : Option Payload} (isText : ∀ payload ∈ code, payload.IsText)
    (otherIsText : ∀ payload ∈ otherCode, payload.IsText)
    (same : code.map (fun payload => (codeJson payload).sorted) =
      otherCode.map (fun payload => (codeJson payload).sorted)) :
    code.map Payload.content = otherCode.map Payload.content := by
  refine map_eq_of_map_eq ?_ same
  intro payload member other otherMember sameShown
  exact content_eq_of_sorted_eq (isText payload member) (otherIsText other otherMember) sameShown

theorem table_agrees {table otherTable : Option SourceTable}
    (same : table.map (fun table => table.toJson.sorted) =
      otherTable.map (fun table => table.toJson.sorted)) : table = otherTable :=
  Option.map_injective (fun _ _ alike => SourceTable.eq_of_toJson_alike alike) same

theorem data_agrees {entry other : Data} (same : entry.toJson.sorted = other.toJson.sorted) :
    entry = other := by
  have sameName := congrArg (Json.field? "name") same
  have sameValue := congrArg (Json.field? "value") same
  obtain ⟨name, bytes⟩ := entry
  obtain ⟨otherName, otherBytes⟩ := other
  obtain rfl : name = otherName := Json.string.inj (Option.some.inj sameName)
  obtain rfl : bytes = otherBytes :=
    Bytes.toHex_inj (Json.string.inj (Option.some.inj sameValue))
  rfl

/-- Byte strings and objects are shown as values of different types. -/
theorem sorted_data_ne_object (entry : Data) (object : Object Payload) :
    entry.toJson.sorted ≠ object.toJson.sorted := by
  intro same
  have sameType := congrArg (Json.field? "nodeType") same
  have dataType : entry.toJson.sorted.field? "nodeType" = some (.string "YulData") := rfl
  rw [dataType, (field?_toJson object).1] at sameType
  exact absurd (Json.string.inj (Option.some.inj sameType)) (by decide)

/-- Objects that are shown as values that are alike have the same names, and parts that are shown
alike. -/
theorem fields_agree {first second : Object Payload}
    (alike : Json.Alike first.toJson second.toJson) :
    first.name = second.name ∧
      (toJsonAll first.children).map Json.sorted = (toJsonAll second.children).map Json.sorted ∧
      first.code.map (fun payload => (codeJson payload).sorted) =
        second.code.map (fun payload => (codeJson payload).sorted) ∧
      first.table.map (fun table => table.toJson.sorted) =
        second.table.map (fun table => table.toJson.sorted) := by
  obtain ⟨-, firstName, firstItems, firstCode, firstTable⟩ := field?_toJson first
  obtain ⟨-, secondName, secondItems, secondCode, secondTable⟩ := field?_toJson second
  rw [Json.Alike] at alike
  rw [alike, secondName] at firstName
  rw [alike, secondItems] at firstItems
  rw [alike, secondCode] at firstCode
  rw [alike, secondTable] at firstTable
  exact ⟨(Json.string.inj (Option.some.inj firstName)).symm,
    (Json.array.inj (Option.some.inj firstItems)).symm, firstCode.symm, firstTable.symm⟩

mutual

/-- Trees whose code is text agree if they are shown as values that are alike. -/
theorem agrees_of_alike : ∀ first second : Object Payload, first.EveryCode Payload.IsText →
    second.EveryCode Payload.IsText → Json.Alike first.toJson second.toJson → first.Agrees second
  | ⟨_, _, _, _, _, children⟩, ⟨_, _, _, _, _, others⟩, ⟨isText, allText⟩,
    ⟨otherIsText, othersText⟩, alike => by
      obtain ⟨sameName, sameItems, sameCode, sameTable⟩ := fields_agree alike
      exact .intro sameName (code_agrees isText otherIsText sameCode) (table_agrees sameTable)
        (agreesAll_of_alike children others allText othersText sameItems)

theorem agreesAll_of_alike : ∀ first second : List (Node Payload),
    EveryCodeAll Payload.IsText first → EveryCodeAll Payload.IsText second →
    (toJsonAll first).map Json.sorted = (toJsonAll second).map Json.sorted →
    AgreesAll first second
  | [], [], _, _, _ => .nil
  | .data entry :: rest, .data other :: others, allText, othersText, same => by
      obtain ⟨sameEntry, sameRest⟩ := List.cons.inj same
      obtain rfl := data_agrees sameEntry
      exact .data entry (agreesAll_of_alike rest others allText othersText sameRest)
  | .object nested :: rest, .object other :: others, allText, othersText, same => by
      obtain ⟨sameObject, sameRest⟩ := List.cons.inj same
      exact .object (agrees_of_alike nested other allText.1 othersText.1 sameObject)
        (agreesAll_of_alike rest others allText.2 othersText.2 sameRest)
  | .data entry :: _, .object other :: _, _, _, same =>
      absurd (List.cons.inj same).1 (sorted_data_ne_object entry other)
  | .object nested :: _, .data other :: _, _, _, same =>
      absurd (List.cons.inj same).1.symm (sorted_data_ne_object other nested)
  | [], .data _ :: _, _, _, same => nomatch same
  | [], .object _ :: _, _, _, same => nomatch same
  | .data _ :: _, [], _, _, same => nomatch same
  | .object _ :: _, [], _, _, same => nomatch same

end

mutual

theorem everyCode_of_printable : ∀ (object : Object Payload) (room : Nat), object.Printable room →
    object.EveryCode Payload.IsText
  | ⟨_, _, _, _, _, children⟩, room, ⟨_, printable, _, childrenPrintable⟩ =>
      ⟨fun payload member => Payload.isText_of_isPrintable (printable payload member),
        everyCodeAll_of_printable children (room - 1) childrenPrintable⟩

theorem everyCodeAll_of_printable : ∀ (children : List (Node Payload)) (room : Nat),
    PrintableAll room children → EveryCodeAll Payload.IsText children
  | [], _, _ => trivial
  | .data _ :: rest, room, printable => everyCodeAll_of_printable rest room printable
  | .object nested :: rest, room, ⟨printable, restPrintable⟩ =>
      ⟨everyCode_of_printable nested room printable,
        everyCodeAll_of_printable rest room restPrintable⟩

end

/-- The code of a tree that was read is text. -/
theorem everyCode_of_read {options : ReadOptions} {source : Text} {object : Object Payload}
    (read : Object.read options source = .ok object) : object.EveryCode Payload.IsText := by
  obtain ⟨tree, derived, admissible, rfl⟩ := Grammar.exists_derivation_of_read read
  obtain ⟨room, printable⟩ := Grammar.RootTree.exists_printable derived admissible
  exact everyCode_of_printable _ room printable

/-- A tree whose code is text, because it was made so or because it was read. -/
def OfTexts (object : Object Payload) : Prop :=
  object.EveryCode Payload.IsText ∨
    ∃ (options : ReadOptions) (source : Text), Object.read options source = .ok object

theorem everyCode_of_ofTexts {object : Object Payload} (ofTexts : object.OfTexts) :
    object.EveryCode Payload.IsText := by
  rcases ofTexts with every | ⟨options, source, read⟩
  · exact every
  · exact everyCode_of_read read

/-- Trees whose code is text agree exactly if they are shown as the same value, in whatever order
its fields are taken, and are then printed alike. -/
theorem toJson_alike_iff {first second : Object Payload} (firstTexts : first.OfTexts)
    (secondTexts : second.OfTexts) :
    (Json.Alike first.toJson second.toJson ↔ first.Agrees second) ∧
      (first.toJson = second.toJson ↔ first.Agrees second) ∧
      (Json.Alike first.toJson second.toJson →
        ∀ (selection : Selection) (sources : SourceProvider),
          first.print selection sources = second.print selection sources) := by
  have agrees := agrees_of_alike first second (everyCode_of_ofTexts firstTexts)
    (everyCode_of_ofTexts secondTexts)
  refine ⟨⟨agrees, fun agree => congrArg Json.sorted (toJson_of_agrees agree)⟩,
    ⟨fun same => agrees (congrArg Json.sorted same), toJson_of_agrees⟩, ?_⟩
  intro alike selection sources
  exact print_of_agrees (agrees alike) selection sources

/-- An object with code, a byte string and an object with code inside it, which was not read. -/
def spacedSample (inner : DebugBundle) : Object Payload :=
  (((Object.new "A").setCode (Payload.ofBody (some ⟨"evm"⟩) "x\n\n") none).grow
      (.data ⟨"D", [0x0a, 0xff]⟩)).grow
    (.object (((Object.new "B").setCode (Payload.ofBody none "y  \nz") none).setDebug inner))

theorem spacedSample_ofTexts (inner : DebugBundle) : (spacedSample inner).OfTexts := by
  refine .inl ⟨?_, ?_, trivial⟩
  · rintro payload ⟨⟩
    exact ⟨"x\n\n", rfl⟩
  · refine ⟨?_, trivial⟩
    rintro payload ⟨⟩
    exact ⟨"y  \nz", rfl⟩

/-- The source of a tree with the same nodes in other blank space. -/
def closeSource : Text :=
  "object \"A\" \x7b code \x7b\n  x\n\x7d data \"D\" hex\"0a_FF\" " ++
    "object \"B\" \x7b code \x7b y\n z \x7d \x7d \x7d"

/-- It agrees with what is read from other blank space, but not if the object inside it gets an
empty table. -/
theorem toJson_alike_iff_spacedSample :
    ∃ read : Object Payload, Object.read .standard closeSource = .ok read ∧
      read.OfTexts ∧ (spacedSample ⟨none⟩).OfTexts ∧ read.Agrees (spacedSample ⟨none⟩) ∧
      read.display = (spacedSample ⟨none⟩).display ∧ ¬ read.Agrees (spacedSample ⟨some {}⟩) := by
  have shown : (Object.read .standard closeSource).toOption.map toJson =
      some (spacedSample ⟨none⟩).toJson := by
    decide +kernel
  cases read : Object.read .standard closeSource with
  | error error =>
      rw [read] at shown
      cases shown
  | ok object =>
      rw [read] at shown
      have same : object.toJson = (spacedSample ⟨none⟩).toJson := Option.some.inj shown
      have objectTexts : object.OfTexts := .inr ⟨_, _, read⟩
      obtain ⟨-, equal, printed⟩ := toJson_alike_iff objectTexts (spacedSample_ofTexts ⟨none⟩)
      obtain ⟨-, different, -⟩ := toJson_alike_iff objectTexts (spacedSample_ofTexts ⟨some {}⟩)
      refine ⟨object, rfl, objectTexts, spacedSample_ofTexts ⟨none⟩, equal.mp same,
        printed (congrArg Json.sorted same) _ _, ?_⟩
      rw [← different, same]
      decide +kernel

end Object

end YulTree
