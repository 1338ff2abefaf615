import LuaBackend.Proofs.Document
import LuaBackend.Script.Encode

/-!
# The documents of a syntax tree

The document of a tree lists the fields of each node in their order and says which of them can be
left out: a position at its default, an empty list, an absent part.  Statements and expressions
are tagged, and the fields of a block or an identifier that is one stand beside the tag.

A tree is written as the value of its document, so the document also fixes what is written.
-/

namespace LuaBackend

open Script

namespace Document.Field

/-- A field that is always written. -/
def required (name : String) (content : Document) : Field := ⟨name, false, content⟩

def text (name value : String) : Field := required name (.scalar (.str value))

/-- A list that can be left out when it is empty. -/
def listed (name : String) (documents : List Document) : Field :=
  ⟨name, documents.isEmpty, .list documents⟩

/-- A part that can be absent: it is then left out or `null`. -/
def optional (name : String) : Option Document → Field
  | none => ⟨name, true, .scalar .null⟩
  | some content => required name content

@[simp] theorem name_required (name : String) (content : Document) :
    (required name content).name = name := rfl

@[simp] theorem name_text (name value : String) : (text name value).name = name := rfl

@[simp] theorem name_listed (name : String) (documents : List Document) :
    (listed name documents).name = name := rfl

@[simp] theorem name_optional (name : String) (content : Option Document) :
    (optional name content).name = name := by
  cases content <;> rfl

@[simp] theorem content_required (name : String) (content : Document) :
    (required name content).content = content := rfl

@[simp] theorem content_text (name value : String) :
    (text name value).content = .scalar (.str value) := rfl

@[simp] theorem content_listed (name : String) (documents : List Document) :
    (listed name documents).content = .list documents := rfl

@[simp] theorem content_optional (name : String) (content : Option Document) :
    (optional name content).content = content.getD (.scalar .null) := by
  cases content <;> rfl

@[simp] theorem wellFormed_required {name : String} {content : Document} :
    (required name content).WellFormed ↔ content.WellFormed := by
  simp [WellFormed, required]

@[simp] theorem wellFormed_text (name value : String) : (text name value).WellFormed := by
  simp [text, Document.WellFormed, Json.depth]

/-- An empty list is a flat array. -/
@[simp] theorem wellFormed_listed {name : String} {documents : List Document} :
    (listed name documents).WellFormed ↔ ListWellFormed documents := by
  cases documents <;>
    simp [WellFormed, listed, Document.WellFormed, toJson, toJsonList, Json.depth,
      Json.depthOfItems]

@[simp] theorem wellFormed_optional_none (name : String) : (optional name none).WellFormed := by
  simp [WellFormed, optional, Document.WellFormed, toJson, Json.depth]

@[simp] theorem wellFormed_optional_some {name : String} {content : Document} :
    (optional name (some content)).WellFormed ↔ content.WellFormed := wellFormed_required

end Document.Field

open Document (Field tagged)

namespace Script

/-! ## The fields of each node -/

def Pos.document (pos : Pos) : Document :=
  .record
    [.required "line" (.scalar (.int pos.line.toNat)),
      .required "column" (.scalar (.int pos.column.toNat))]

/-- The position of a node can be left out if it is 0:0. -/
def Pos.field (pos : Pos) : Field := ⟨"pos", pos = {}, pos.document⟩

def Ident.parts (id : Ident) : List Field := [id.pos.field, .text "name" id.name]

def Ident.document (id : Ident) : Document := .record id.parts

mutual

def Expr.document : Expr → Document
  | .ident id => tagged "Ident" id.parts
  | .int pos literal => tagged "IntLit" [pos.field, .text "literal" literal]
  | .float pos literal => tagged "FloatLit" [pos.field, .text "literal" literal]
  | .bool pos value => tagged "BoolLit" [pos.field, .required "value" (.scalar (.bool value))]
  | .str pos value => tagged "StringLit" [pos.field, .text "value" value]
  | .char pos value => tagged "CharLit" [pos.field, .text "value" (String.singleton value)]
  | .undefined pos => tagged "UndefinedLit" [pos.field]
  | .paren pos expr => tagged "Paren" [pos.field, .required "expr" expr.document]
  | .binary pos op lhs rhs =>
    tagged "Binary"
      [pos.field, .text "op" op.spelling, .required "lhs" lhs.document,
        .required "rhs" rhs.document]
  | .unary pos op expr =>
    tagged "Unary" [pos.field, .text "op" op.spelling, .required "expr" expr.document]
  | .selector pos expr field =>
    tagged "Selector" [pos.field, .required "expr" expr.document, .text "sel" field]
  | .index pos expr key =>
    tagged "Index" [pos.field, .required "expr" expr.document, .required "index" key.document]
  | .slice pos expr low high =>
    tagged "Slice"
      [pos.field, .required "expr" expr.document, .optional "low" (Expr.documentOption low),
        .optional "high" (Expr.documentOption high)]
  | .cond pos test whenTrue whenFalse =>
    tagged "Cond"
      [pos.field, .required "cond" test.document, .required "when_true" whenTrue.document,
        .required "when_false" whenFalse.document]
  | .call pos callee args =>
    tagged "Call"
      [pos.field, .required "func" callee.document, .listed "args" (Expr.documentList args)]
  | .array pos elements =>
    tagged "ArrayLit" [pos.field, .listed "elements" (Expr.documentList elements)]
  | .map pos elements =>
    tagged "MapLit" [pos.field, .listed "elements" (MapElement.documentList elements)]
  | .func pos params body =>
    tagged "FuncLit"
      [pos.field, .listed "params" (params.map Ident.document),
        .required "body" (.record body.parts)]
  | .importModule pos name => tagged "Import" [pos.field, .text "module" name]
  | .error pos expr => tagged "ErrorExpr" [pos.field, .required "expr" expr.document]
  | .immutable pos expr => tagged "Immutable" [pos.field, .required "expr" expr.document]

def Expr.documentOption : Option Expr → Option Document
  | none => none
  | some expr => some expr.document

def Expr.documentList : List Expr → List Document
  | [] => []
  | expr :: exprs => expr.document :: Expr.documentList exprs

def MapElement.document : MapElement → Document
  | ⟨pos, key, value⟩ =>
    .record [pos.field, .text "key" key, .required "value" value.document]

def MapElement.documentList : List MapElement → List Document
  | [] => []
  | element :: elements => element.document :: MapElement.documentList elements

def Stmt.document : Stmt → Document
  | .expr pos expr => tagged "Expr" [pos.field, .required "expr" expr.document]
  | .incDec pos op target =>
    tagged "IncDec" [pos.field, .text "op" op.spelling, .required "expr" target.document]
  | .assign pos op lhs rhs =>
    tagged "Assign"
      [pos.field, .text "op" op.spelling, .required "lhs" (.list (Expr.documentList lhs)),
        .required "rhs" (.list (Expr.documentList rhs))]
  | .ret pos result => tagged "Return" [pos.field, .optional "result" (Expr.documentOption result)]
  | .branch pos op => tagged "Branch" [pos.field, .text "op" op.spelling]
  | .block body => tagged "Block" body.parts
  | .ifElse pos init test body rest =>
    tagged "If"
      [pos.field, .optional "init" (Stmt.documentOption init), .required "cond" test.document,
        .required "body" (.record body.parts), .optional "else" (Stmt.documentOption rest)]
  | .loop pos init test post body =>
    tagged "For"
      [pos.field, .optional "init" (Stmt.documentOption init),
        .optional "cond" (Expr.documentOption test), .optional "post" (Stmt.documentOption post),
        .required "body" (.record body.parts)]
  | .forIn pos key value iterable body =>
    tagged "ForIn"
      [pos.field, .optional "key" (key.map Ident.document), .required "value" value.document,
        .required "iterable" iterable.document, .required "body" (.record body.parts)]
  | .exportValue pos result => tagged "Export" [pos.field, .required "result" result.document]

def Stmt.documentOption : Option Stmt → Option Document
  | none => none
  | some stmt => some stmt.document

def Stmt.documentList : List Stmt → List Document
  | [] => []
  | stmt :: stmts => stmt.document :: Stmt.documentList stmts

def Block.parts : Block → List Field
  | ⟨pos, stmts⟩ => [pos.field, .listed "stmts" (Stmt.documentList stmts)]

end

def Block.document (block : Block) : Document := .record block.parts

def File.document (file : File) : Document :=
  .record [.listed "stmts" (Stmt.documentList file.stmts)]

/-- The tag that the node is written with. -/
def Expr.tag : Expr → String
  | .ident _ => "Ident"
  | .int .. => "IntLit"
  | .float .. => "FloatLit"
  | .bool .. => "BoolLit"
  | .str .. => "StringLit"
  | .char .. => "CharLit"
  | .undefined _ => "UndefinedLit"
  | .paren .. => "Paren"
  | .binary .. => "Binary"
  | .unary .. => "Unary"
  | .selector .. => "Selector"
  | .index .. => "Index"
  | .slice .. => "Slice"
  | .cond .. => "Cond"
  | .call .. => "Call"
  | .array .. => "ArrayLit"
  | .map .. => "MapLit"
  | .func .. => "FuncLit"
  | .importModule .. => "Import"
  | .error .. => "ErrorExpr"
  | .immutable .. => "Immutable"

def Stmt.tag : Stmt → String
  | .expr .. => "Expr"
  | .incDec .. => "IncDec"
  | .assign .. => "Assign"
  | .ret .. => "Return"
  | .branch .. => "Branch"
  | .block _ => "Block"
  | .ifElse .. => "If"
  | .loop .. => "For"
  | .forIn .. => "ForIn"
  | .exportValue .. => "Export"

theorem Expr.document_eq_tagged (expr : Expr) :
    expr.document = tagged expr.tag expr.document.besideTag := by
  cases expr <;> rfl

theorem Stmt.document_eq_tagged (stmt : Stmt) :
    stmt.document = tagged stmt.tag stmt.document.besideTag := by
  cases stmt <;> rfl

theorem Expr.documentOption_eq_map (expr : Option Expr) :
    Expr.documentOption expr = expr.map Expr.document := by
  cases expr <;> rfl

theorem Expr.documentList_eq_map (exprs : List Expr) :
    Expr.documentList exprs = exprs.map Expr.document := by
  induction exprs with
  | nil => rfl
  | cons expr exprs ih => simp [Expr.documentList, ih]

theorem MapElement.documentList_eq_map (elements : List MapElement) :
    MapElement.documentList elements = elements.map MapElement.document := by
  induction elements with
  | nil => rfl
  | cons element elements ih => simp [MapElement.documentList, ih]

theorem Stmt.documentOption_eq_map (stmt : Option Stmt) :
    Stmt.documentOption stmt = stmt.map Stmt.document := by
  cases stmt <;> rfl

theorem Stmt.documentList_eq_map (stmts : List Stmt) :
    Stmt.documentList stmts = stmts.map Stmt.document := by
  induction stmts with
  | nil => rfl
  | cons stmt stmts ih => simp [Stmt.documentList, ih]

/-! ## Trees are written as their documents -/

@[simp] theorem Pos.name_field (pos : Pos) : pos.field.name = "pos" := rfl

@[simp] theorem Pos.content_field (pos : Pos) : pos.field.content = pos.document := rfl

@[simp] theorem Pos.toJson_document (pos : Pos) : pos.document.toJson = pos.toJson := rfl

@[simp] theorem toJson_tagged (tag : String) (fields : List Field) :
    (tagged tag fields).toJson = taggedJson tag (Document.toJsonFields fields) := rfl

@[simp] theorem toJson_record (fields : List Field) :
    (Document.record fields).toJson = .obj (Document.toJsonFields fields) := rfl

@[simp] theorem toJson_list (documents : List Document) :
    (Document.list documents).toJson = .arr (Document.toJsonList documents) := rfl

@[simp] theorem toJson_scalar (value : Json) : (Document.scalar value).toJson = value := rfl

@[simp] theorem Ident.toJsonFields_parts (id : Ident) :
    Document.toJsonFields id.parts = id.fields := rfl

@[simp] theorem Ident.toJson_document (id : Ident) : id.document.toJson = id.toJson := rfl

@[simp] theorem Ident.toJsonList_documents (ids : List Ident) :
    Document.toJsonList (ids.map Ident.document) = ids.map Ident.toJson := by
  induction ids with
  | nil => rfl
  | cons id ids ih => simp [Document.toJsonList, ih]

theorem Ident.toJson_documentOption (id : Option Ident) :
    ((id.map Ident.document).getD (.scalar .null)).toJson = Ident.toJsonOption id := by
  cases id <;> rfl

@[simp] theorem Block.obj_fields (block : Block) : Json.obj block.fields = block.toJson := by
  cases block
  rfl

mutual

theorem Expr.toJson_document : (expr : Expr) → expr.document.toJson = expr.toJson
  | .ident _ | .int .. | .float .. | .bool .. | .str .. | .char .. | .undefined _
  | .importModule .. => rfl
  | .paren _ expr | .selector _ expr _ | .unary _ _ expr | .error _ expr | .immutable _ expr => by
    simp [Expr.document, Expr.toJson, expr.toJson_document]
  | .binary _ _ lhs rhs => by
    simp [Expr.document, Expr.toJson, lhs.toJson_document, rhs.toJson_document]
  | .index _ expr key => by
    simp [Expr.document, Expr.toJson, expr.toJson_document, key.toJson_document]
  | .slice _ expr low high => by
    simp [Expr.document, Expr.toJson, expr.toJson_document, Expr.toJson_documentOption low,
      Expr.toJson_documentOption high]
  | .cond _ test whenTrue whenFalse => by
    simp [Expr.document, Expr.toJson, test.toJson_document, whenTrue.toJson_document,
      whenFalse.toJson_document]
  | .call _ callee args => by
    simp [Expr.document, Expr.toJson, callee.toJson_document, Expr.toJsonList_documentList args]
  | .array _ elements => by
    simp [Expr.document, Expr.toJson, Expr.toJsonList_documentList elements]
  | .map _ elements => by
    simp [Expr.document, Expr.toJson, MapElement.toJsonList_documentList elements]
  | .func _ params body => by
    simp [Expr.document, Expr.toJson, body.toJsonFields_parts]

theorem Expr.toJson_documentOption : (expr : Option Expr) →
    ((Expr.documentOption expr).getD (.scalar .null)).toJson = Expr.toJsonOption expr
  | none => rfl
  | some expr => expr.toJson_document

theorem Expr.toJsonList_documentList : (exprs : List Expr) →
    Document.toJsonList (Expr.documentList exprs) = Expr.toJsonList exprs
  | [] => rfl
  | expr :: exprs => by
    simp [Expr.documentList, Document.toJsonList, Expr.toJsonList, expr.toJson_document,
      Expr.toJsonList_documentList exprs]

theorem MapElement.toJson_document : (element : MapElement) →
    element.document.toJson = element.toJson
  | ⟨_, _, value⟩ => by
    simp [MapElement.document, MapElement.toJson, value.toJson_document]

theorem MapElement.toJsonList_documentList : (elements : List MapElement) →
    Document.toJsonList (MapElement.documentList elements) = MapElement.toJsonList elements
  | [] => rfl
  | element :: elements => by
    simp [MapElement.documentList, Document.toJsonList, MapElement.toJsonList,
      element.toJson_document, MapElement.toJsonList_documentList elements]

theorem Stmt.toJson_document : (stmt : Stmt) → stmt.document.toJson = stmt.toJson
  | .expr _ expr | .incDec _ _ expr | .exportValue _ expr => by
    simp [Stmt.document, Stmt.toJson, expr.toJson_document]
  | .assign _ _ lhs rhs => by
    simp [Stmt.document, Stmt.toJson, Expr.toJsonList_documentList lhs,
      Expr.toJsonList_documentList rhs]
  | .ret _ result => by
    simp [Stmt.document, Stmt.toJson, Expr.toJson_documentOption result]
  | .branch .. => rfl
  | .block body => by simp [Stmt.document, Stmt.toJson, body.toJsonFields_parts]
  | .ifElse _ init test body rest => by
    simp [Stmt.document, Stmt.toJson, Stmt.toJson_documentOption init, test.toJson_document,
      body.toJsonFields_parts, Stmt.toJson_documentOption rest]
  | .loop _ init test post body => by
    simp [Stmt.document, Stmt.toJson, Stmt.toJson_documentOption init,
      Expr.toJson_documentOption test, Stmt.toJson_documentOption post, body.toJsonFields_parts]
  | .forIn _ key value iterable body => by
    simp [Stmt.document, Stmt.toJson, Ident.toJson_documentOption key, iterable.toJson_document,
      body.toJsonFields_parts]

theorem Stmt.toJson_documentOption : (stmt : Option Stmt) →
    ((Stmt.documentOption stmt).getD (.scalar .null)).toJson = Stmt.toJsonOption stmt
  | none => rfl
  | some stmt => stmt.toJson_document

theorem Stmt.toJsonList_documentList : (stmts : List Stmt) →
    Document.toJsonList (Stmt.documentList stmts) = Stmt.toJsonList stmts
  | [] => rfl
  | stmt :: stmts => by
    simp [Stmt.documentList, Document.toJsonList, Stmt.toJsonList, stmt.toJson_document,
      Stmt.toJsonList_documentList stmts]

theorem Block.toJsonFields_parts : (block : Block) →
    Document.toJsonFields block.parts = block.fields
  | ⟨_, stmts⟩ => by
    simp [Block.parts, Block.fields, Stmt.toJsonList_documentList stmts]

end

theorem File.toJson_document (file : File) : file.document.toJson = file.toJson := by
  simp [File.document, File.toJson, Stmt.toJsonList_documentList]

/-! ## Documents of trees are well-formed -/

@[simp] theorem wellFormed_record {fields : List Field} :
    (Document.record fields).WellFormed ↔
      (fields.map Field.name).Nodup ∧ Document.FieldsWellFormed fields := Iff.rfl

@[simp] theorem wellFormed_tagged {tag : String} {fields : List Field} :
    (tagged tag fields).WellFormed ↔
      "type" ∉ fields.map Field.name ∧ (fields.map Field.name).Nodup ∧
        Document.FieldsWellFormed fields := by
  simp [tagged, Document.Field.WellFormed, Document.WellFormed, Json.depth, and_assoc]

@[simp] theorem wellFormed_list {documents : List Document} :
    (Document.list documents).WellFormed ↔ Document.ListWellFormed documents := Iff.rfl

@[simp] theorem Pos.wellFormed_field (pos : Pos) : pos.field.WellFormed := by
  simp [Document.Field.WellFormed, Pos.document, Document.WellFormed, Json.depth,
    Json.depthOfFields]

@[simp] theorem Ident.fieldsWellFormed_parts (id : Ident) :
    Document.FieldsWellFormed id.parts := by
  simp [Ident.parts]

@[simp] theorem Ident.map_name_parts (id : Ident) : id.parts.map Field.name = ["pos", "name"] := rfl

theorem Ident.wellFormed_document (id : Ident) : id.document.WellFormed := by
  simp [Ident.document]

theorem Ident.wellFormed_optional (name : String) (id : Option Ident) :
    (Field.optional name (id.map Ident.document)).WellFormed := by
  cases id with
  | none => simp
  | some id => simp [id.wellFormed_document]

theorem Ident.listWellFormed_documents (ids : List Ident) :
    Document.ListWellFormed (ids.map Ident.document) := by
  induction ids with
  | nil => trivial
  | cons id ids ih => exact ⟨id.wellFormed_document, ih⟩

@[simp] theorem Block.map_name_parts (block : Block) :
    block.parts.map Field.name = ["pos", "stmts"] := by
  cases block
  rfl

mutual

theorem Expr.wellFormed_document : (expr : Expr) → expr.document.WellFormed
  | .ident _ | .int .. | .float .. | .str .. | .char .. | .undefined _ | .importModule .. => by
    simp [Expr.document]
  | .bool .. => by simp [Expr.document, Document.WellFormed, Json.depth]
  | .paren _ expr | .selector _ expr _ | .unary _ _ expr | .error _ expr | .immutable _ expr => by
    simp [Expr.document, expr.wellFormed_document]
  | .binary _ _ lhs rhs => by
    simp [Expr.document, lhs.wellFormed_document, rhs.wellFormed_document]
  | .index _ expr key => by
    simp [Expr.document, expr.wellFormed_document, key.wellFormed_document]
  | .slice _ expr low high => by
    simp [Expr.document, expr.wellFormed_document, Expr.wellFormed_optional _ low,
      Expr.wellFormed_optional _ high]
  | .cond _ test whenTrue whenFalse => by
    simp [Expr.document, test.wellFormed_document, whenTrue.wellFormed_document,
      whenFalse.wellFormed_document]
  | .call _ callee args => by
    simp [Expr.document, callee.wellFormed_document, Expr.listWellFormed_documentList args]
  | .array _ elements => by
    simp [Expr.document, Expr.listWellFormed_documentList elements]
  | .map _ elements => by
    simp [Expr.document, MapElement.listWellFormed_documentList elements]
  | .func _ params body => by
    simp [Expr.document, Ident.listWellFormed_documents params, body.fieldsWellFormed_parts]

theorem Expr.wellFormed_optional (name : String) : (expr : Option Expr) →
    (Field.optional name (Expr.documentOption expr)).WellFormed
  | none => by simp [Expr.documentOption]
  | some expr => by simp [Expr.documentOption, expr.wellFormed_document]

theorem Expr.listWellFormed_documentList : (exprs : List Expr) →
    Document.ListWellFormed (Expr.documentList exprs)
  | [] => trivial
  | expr :: exprs => ⟨expr.wellFormed_document, Expr.listWellFormed_documentList exprs⟩

theorem MapElement.wellFormed_document : (element : MapElement) → element.document.WellFormed
  | ⟨_, _, value⟩ => by simp [MapElement.document, value.wellFormed_document]

theorem MapElement.listWellFormed_documentList : (elements : List MapElement) →
    Document.ListWellFormed (MapElement.documentList elements)
  | [] => trivial
  | element :: elements =>
    ⟨element.wellFormed_document, MapElement.listWellFormed_documentList elements⟩

theorem Stmt.wellFormed_document : (stmt : Stmt) → stmt.document.WellFormed
  | .expr _ expr | .incDec _ _ expr | .exportValue _ expr => by
    simp [Stmt.document, expr.wellFormed_document]
  | .assign _ _ lhs rhs => by
    simp [Stmt.document, Expr.listWellFormed_documentList lhs,
      Expr.listWellFormed_documentList rhs]
  | .ret _ result => by simp [Stmt.document, Expr.wellFormed_optional _ result]
  | .branch .. => by simp [Stmt.document]
  | .block body => by simp [Stmt.document, body.fieldsWellFormed_parts]
  | .ifElse _ init test body rest => by
    simp [Stmt.document, Stmt.wellFormed_optional _ init, test.wellFormed_document,
      body.fieldsWellFormed_parts, Stmt.wellFormed_optional _ rest]
  | .loop _ init test post body => by
    simp [Stmt.document, Stmt.wellFormed_optional _ init, Expr.wellFormed_optional _ test,
      Stmt.wellFormed_optional _ post, body.fieldsWellFormed_parts]
  | .forIn _ key value iterable body => by
    simp [Stmt.document, Ident.wellFormed_optional _ key, value.wellFormed_document,
      iterable.wellFormed_document, body.fieldsWellFormed_parts]

theorem Stmt.wellFormed_optional (name : String) : (stmt : Option Stmt) →
    (Field.optional name (Stmt.documentOption stmt)).WellFormed
  | none => by simp [Stmt.documentOption]
  | some stmt => by simp [Stmt.documentOption, stmt.wellFormed_document]

theorem Stmt.listWellFormed_documentList : (stmts : List Stmt) →
    Document.ListWellFormed (Stmt.documentList stmts)
  | [] => trivial
  | stmt :: stmts => ⟨stmt.wellFormed_document, Stmt.listWellFormed_documentList stmts⟩

theorem Block.fieldsWellFormed_parts : (block : Block) → Document.FieldsWellFormed block.parts
  | ⟨_, stmts⟩ => by simp [Block.parts, Stmt.listWellFormed_documentList stmts]

end

theorem Expr.type_notMem_besideTag (expr : Expr) :
    "type" ∉ expr.document.besideTag.map Field.name := by
  have hexpr := expr.wellFormed_document
  rw [expr.document_eq_tagged, wellFormed_tagged] at hexpr
  exact hexpr.1

theorem Stmt.type_notMem_besideTag (stmt : Stmt) :
    "type" ∉ stmt.document.besideTag.map Field.name := by
  have hstmt := stmt.wellFormed_document
  rw [stmt.document_eq_tagged, wellFormed_tagged] at hstmt
  exact hstmt.1

theorem File.wellFormed_document (file : File) : file.document.WellFormed := by
  simp [File.document, Stmt.listWellFormed_documentList]

end Script

end LuaBackend
