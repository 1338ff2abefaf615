import LuaBackend.Proofs.TreeDocument
import LuaBackend.Script.Decode

/-!
# Which JSON values are read as a tree

A value is read as a tree exactly if it represents the document of the tree.  Every reader is
compared with what can be found in the value by name, first the readers of scalars, then those of
fields and records, and last those of nodes, level by level.
-/

namespace LuaBackend

open Script

open Document (Field tagged)

/-- On values of at most `levels` levels the reader gives what is found there. -/
def ReadsWithin {α : Type} (levels : Nat) (read : Json → Option α) (document : α → Document) :
    Prop :=
  ∀ json : Json, json.depth ≤ levels → ∀ a, read json = some a ↔ (document a).FoundIn json

theorem ReadsWithin.mono {α : Type} {levels larger : Nat} {read : Json → Option α}
    {document : α → Document} (hreads : ReadsWithin larger read document) (hle : levels ≤ larger) :
    ReadsWithin levels read document :=
  fun json hdepth => hreads json (Nat.le_trans hdepth hle)

/-! ## Scalars -/

section Scalars

variable (levels : Nat)

theorem readsWithin_str : ReadsWithin levels Json.str? fun value => .scalar (.str value) := by
  intro json _ value
  cases json <;> simp [Json.str?, Document.FoundIn]

theorem readsWithin_bool : ReadsWithin levels Json.bool? fun value => .scalar (.bool value) := by
  intro json _ value
  cases json <;> simp [Json.bool?, Document.FoundIn]

theorem readsWithin_char :
    ReadsWithin levels Json.char? fun value => .scalar (.str (String.singleton value)) := by
  intro json _ value
  cases json with
  | str text =>
      have hsingleton : text = String.singleton value ↔ text.toList = [value] := by
        rw [← String.toList_inj, String.toList_singleton]
      simp only [Json.char?, Document.FoundIn, Json.str.injEq, hsingleton]
      split <;> simp_all
  | _ => simp [Json.char?, Document.FoundIn]

theorem readsWithin_uint32 :
    ReadsWithin levels Json.uint32? fun value => .scalar (.int value.toNat) := by
  intro json _ value
  cases json with
  | int n =>
      cases n with
      | ofNat n =>
          have hvalue := value.toNat_lt_size
          simp only [Json.uint32?, Document.FoundIn, Json.int.injEq, Int.ofNat_eq_natCast,
            Int.natCast_inj]
          split
          · next hlt =>
              rw [Option.some.injEq, ← UInt32.toNat_inj, UInt32.toNat_ofNat_of_lt' hlt]
          · next hge =>
              simp only [reduceCtorEq, false_iff]
              omega
      | negSucc n => simp [Json.uint32?, Document.FoundIn]
  | _ => simp [Json.uint32?, Document.FoundIn]

/-- An operator is read by its spelling if no other operator is spelled the same. -/
theorem readsWithin_spelling {α : Type} {spelling : α → String} {ofSpelling? : String → Option α}
    (hspelling : ∀ text op, ofSpelling? text = some op ↔ text = spelling op) :
    ReadsWithin levels (fun json => json.str?.bind ofSpelling?)
      fun op => .scalar (.str (spelling op)) := by
  intro json _ op
  cases json <;> simp [Json.str?, Document.FoundIn, hspelling]

theorem find?_spelling_eq_some_iff {α : Type} {spelling : α → String} {all : List α}
    (hall : ∀ op, all.find? (fun other => spelling other == spelling op) = some op) (text : String)
    (op : α) : all.find? (fun other => spelling other == text) = some op ↔ text = spelling op := by
  constructor
  · intro hfind
    have hsame := List.find?_some hfind
    exact (beq_iff_eq.1 hsame).symm
  · rintro rfl
    exact hall op

theorem readsWithin_binaryOp :
    ReadsWithin levels BinaryOp.ofJson? fun op => .scalar (.str op.spelling) :=
  readsWithin_spelling levels (find?_spelling_eq_some_iff fun op => by cases op <;> rfl)

theorem readsWithin_unaryOp :
    ReadsWithin levels UnaryOp.ofJson? fun op => .scalar (.str op.spelling) :=
  readsWithin_spelling levels (find?_spelling_eq_some_iff fun op => by cases op <;> rfl)

theorem readsWithin_assignOp :
    ReadsWithin levels AssignOp.ofJson? fun op => .scalar (.str op.spelling) :=
  readsWithin_spelling levels (find?_spelling_eq_some_iff fun op => by cases op <;> rfl)

theorem readsWithin_incDecOp :
    ReadsWithin levels IncDecOp.ofJson? fun op => .scalar (.str op.spelling) :=
  readsWithin_spelling levels (find?_spelling_eq_some_iff fun op => by cases op <;> rfl)

theorem readsWithin_branchOp :
    ReadsWithin levels BranchOp.ofJson? fun op => .scalar (.str op.spelling) :=
  readsWithin_spelling levels (find?_spelling_eq_some_iff fun op => by cases op <;> rfl)

end Scalars

/-! ## Lists, fields and records -/

/-- The values of the record have at most `levels` levels. -/
def Json.Record.Within (levels : Nat) (record : Json.Record) : Prop :=
  ∀ name value, record.lookup name = some value → value.depth ≤ levels

theorem Json.within_of_record?_eq_some {json : Json} {names : List String} {record : Json.Record}
    {levels : Nat} (hrecord : json.record? names = some record)
    (hdepth : json.depth ≤ levels + 1) : record.Within levels := by
  intro name value hlookup
  have hmem := Json.Record.mem_of_lookup_eq_some hlookup
  cases json with
  | obj fields =>
      obtain rfl : fields = record := by simpa [Json.record?] using hrecord
      have hvalue := Json.depth_le_depthOfFields hmem
      rw [Json.depth] at hdepth
      omega
  | arr items =>
      simp only [Json.record?] at hrecord
      split at hrecord
      · obtain rfl : names.zip items = record := by simpa using hrecord
        have hvalue := Json.depth_le_depthOfItems (List.of_mem_zip hmem).2
        rw [Json.depth] at hdepth
        omega
      · simp at hrecord
  | _ => simp [Json.record?] at hrecord

section Combinators

variable {α : Type} {levels : Nat} {read : Json → Option α} {document : α → Document}
  {record : Json.Record}

theorem mapM_eq_some_iff (hreads : ReadsWithin levels read document) {items : List Json}
    (hdepth : ∀ item ∈ items, item.depth ≤ levels) (values : List α) :
    items.mapM read = some values ↔ Document.ListFoundIn (values.map document) items := by
  induction items generalizing values with
  | nil => cases values <;> simp [Document.ListFoundIn]
  | cons item items ih =>
      rw [List.forall_mem_cons] at hdepth
      rw [List.mapM_cons]
      cases values with
      | nil => simp [Document.ListFoundIn, Option.bind_eq_some_iff]
      | cons value values =>
          simp [Document.ListFoundIn, Option.bind_eq_some_iff, hreads item hdepth.1,
            ih hdepth.2]

theorem ReadsWithin.list (hreads : ReadsWithin levels read document) :
    ReadsWithin levels (Json.list? read) fun values => .list (values.map document) := by
  intro json hdepth values
  cases json with
  | arr items =>
      have hitems : ∀ item ∈ items, item.depth ≤ levels := by
        intro item hmem
        have hitem := Json.depth_le_depthOfItems hmem
        rw [Json.depth] at hdepth
        omega
      simp [Json.list?, Document.FoundIn, mapM_eq_some_iff hreads hitems]
  | _ => simp [Json.list?, Document.FoundIn]

theorem required_eq_some_iff (hrecord : record.Within levels)
    (hreads : ReadsWithin levels read document) (name : String) (value : α) :
    record.required name read = some value ↔
      (Field.required name (document value)).FoundIn record := by
  rw [Json.Record.required, Field.FoundIn, Field.name_required]
  cases hlookup : record.lookup name with
  | none => simp [Field.required]
  | some json => simp [hreads json (hrecord name json hlookup)]

/-- A field with a default is left out only where the default stands. -/
theorem defaulted_eq_some_iff (hrecord : record.Within levels)
    (hreads : ReadsWithin levels read document) (name : String) (default value : α)
    {omissible : Bool} (homissible : omissible = true ↔ value = default) :
    record.defaulted name default read = some value ↔
      Field.FoundIn ⟨name, omissible, document value⟩ record := by
  rw [Json.Record.defaulted, Field.FoundIn]
  cases hlookup : record.lookup name with
  | none => simp [homissible, eq_comm]
  | some json => simp [hreads json (hrecord name json hlookup)]

theorem listed_eq_some_iff (hrecord : record.Within levels)
    (hreads : ReadsWithin levels read document) (name : String) (values : List α) :
    record.defaulted name [] (Json.list? read) = some values ↔
      (Field.listed name (values.map document)).FoundIn record :=
  defaulted_eq_some_iff hrecord hreads.list name [] values (by simp)

theorem optional_eq_some_iff (hrecord : record.Within levels)
    (hreads : ReadsWithin levels read document) (hnull : ∀ value, ¬ (document value).FoundIn .null)
    (name : String) (value : Option α) :
    record.optional name read = some value ↔
      (Field.optional name (value.map document)).FoundIn record := by
  rw [Json.Record.optional, Field.FoundIn, Field.name_optional]
  cases hlookup : record.lookup name with
  | none => cases value <;> simp [Field.optional, Field.required]
  | some json =>
      have hjson := hreads json (hrecord name json hlookup)
      cases json with
      | null => cases value <;> simp [Document.FoundIn, hnull]
      | _ => cases value <;> simp [Document.FoundIn, hjson]

/-- A record is read from its fields. -/
theorem bind_record?_eq_some_iff {json : Json} {value : α} (hdepth : json.depth ≤ levels + 1)
    {names : List String} {fields : List Field} (hnames : fields.map Field.name = names)
    {read : Json.Record → Option α}
    (hread : ∀ record : Json.Record, record.Within levels →
      (read record = some value ↔ Document.FieldsFoundIn fields record)) :
    (json.record? names >>= read) = some value ↔ (Document.record fields).FoundIn json := by
  subst hnames
  rw [Option.bind_eq_bind, Option.bind_eq_some_iff, Document.FoundIn]
  refine exists_congr fun record => and_congr_right fun hrecord => ?_
  exact hread record (Json.within_of_record?_eq_some hrecord hdepth)

end Combinators

/-! ## Positions and identifiers -/

namespace Script

theorem Pos.readsWithin (levels : Nat) : ReadsWithin levels Pos.ofJson? Pos.document := by
  intro json _ pos
  rw [Pos.ofJson?, Pos.document]
  refine bind_record?_eq_some_iff (Nat.le_succ _) (by rfl) fun record hrecord => ?_
  have hnumber := required_eq_some_iff hrecord (readsWithin_uint32 _)
  cases pos
  simp [Option.bind_eq_some_iff, hnumber]

theorem Pos.ofRecord?_eq_some_iff {levels : Nat} {record : Json.Record}
    (hrecord : record.Within levels) (pos : Pos) :
    Pos.ofRecord? record = some pos ↔ pos.field.FoundIn record :=
  defaulted_eq_some_iff hrecord (Pos.readsWithin levels) "pos" {} pos (by simp)

theorem Ident.readsWithin (levels : Nat) : ReadsWithin levels Ident.ofJson? Ident.document := by
  intro json _ id
  rw [Ident.ofJson?, Ident.document]
  refine bind_record?_eq_some_iff (Nat.le_succ _) (by rfl) fun record hrecord => ?_
  have hname := required_eq_some_iff hrecord (readsWithin_str _)
  cases id
  simp [Option.bind_eq_some_iff, Pos.ofRecord?_eq_some_iff hrecord, hname, Ident.parts, Field.text]

theorem Ident.not_foundIn_null (id : Ident) : ¬ id.document.FoundIn .null :=
  fun hfound => absurd (Document.depth_pos_of_foundIn_record hfound) (by decide)

/-! ## Nodes -/

theorem Expr.depth_pos_of_foundIn {expr : Expr} {json : Json}
    (hfound : expr.document.FoundIn json) : 0 < json.depth := by
  rw [expr.document_eq_tagged] at hfound
  exact Document.depth_pos_of_foundIn_record hfound

theorem Stmt.depth_pos_of_foundIn {stmt : Stmt} {json : Json}
    (hfound : stmt.document.FoundIn json) : 0 < json.depth := by
  rw [stmt.document_eq_tagged] at hfound
  exact Document.depth_pos_of_foundIn_record hfound

theorem Expr.not_foundIn_null (expr : Expr) : ¬ expr.document.FoundIn .null :=
  fun hfound => absurd (Expr.depth_pos_of_foundIn hfound) (by decide)

theorem Stmt.not_foundIn_null (stmt : Stmt) : ¬ stmt.document.FoundIn .null :=
  fun hfound => absurd (Stmt.depth_pos_of_foundIn hfound) (by decide)

/-- A tagged record is read by its tag. -/
theorem bind_tagged?_eq_some_iff {α : Type} {levels : Nat} {read : String → Json → Option α}
    {value : α} {tag : String} {fields : List Field} (htype : "type" ∉ fields.map Field.name)
    {json : Json} (hdepth : json.depth ≤ levels)
    (htag : ∀ other inner, read other inner = some value → other = tag)
    (hread : ∀ inner : Json, inner.depth ≤ levels →
      (read tag inner = some value ↔ (Document.record fields).FoundIn inner)) :
    (json.tagged?.bind fun (tag, inner) => read tag inner) = some value ↔
      (tagged tag fields).FoundIn json := by
  have hinner : ∀ inner : Json, json.tagged? = some (tag, inner) → inner.depth ≤ levels :=
    fun inner htagged => Nat.le_trans (Json.depth_le_of_tagged?_eq_some htagged) hdepth
  rw [Document.foundIn_tagged_iff htype, Option.bind_eq_some_iff]
  constructor
  · rintro ⟨⟨other, inner⟩, htagged, hvalue⟩
    obtain rfl := htag _ _ hvalue
    exact ⟨inner, htagged, (hread inner (hinner inner htagged)).1 hvalue⟩
  · rintro ⟨inner, htagged, hfound⟩
    exact ⟨(tag, inner), htagged, (hread inner (hinner inner htagged)).2 hfound⟩

namespace NodeReaders

variable {nodes : NodeReaders} {levels : Nat}

theorem tag_eq_of_exprOfTag?_eq_some {tag : String} {json : Json} {expr : Expr}
    (hread : nodes.exprOfTag? tag json = some expr) : tag = expr.tag := by
  unfold exprOfTag? at hread
  split at hread
  all_goals
    simp only [Option.bind_eq_bind, Option.bind_eq_some_iff, Option.pure_def, Option.some.injEq,
      reduceCtorEq] at hread
  all_goals grind [Expr.tag]

theorem tag_eq_of_stmtOfTag?_eq_some {tag : String} {json : Json} {stmt : Stmt}
    (hread : nodes.stmtOfTag? tag json = some stmt) : tag = stmt.tag := by
  unfold stmtOfTag? at hread
  split at hread
  all_goals
    simp only [Option.bind_eq_bind, Option.bind_eq_some_iff, Option.pure_def, Option.some.injEq,
      reduceCtorEq] at hread
  all_goals grind [Stmt.tag]

/-- The readers give what is found in values of at most `levels` levels. -/
structure ReadWithin (nodes : NodeReaders) (levels : Nat) : Prop where
  expr : ReadsWithin levels nodes.expr Expr.document
  stmt : ReadsWithin levels nodes.stmt Stmt.document

theorem ReadWithin.block (hnodes : nodes.ReadWithin levels) :
    ReadsWithin (levels + 1) nodes.block? Block.document := by
  intro json hdepth block
  obtain ⟨pos, stmts⟩ := block
  rw [block?, Block.document, Block.parts, Stmt.documentList_eq_map]
  refine bind_record?_eq_some_iff hdepth (by rfl) fun record hrecord => ?_
  simp [Option.bind_eq_some_iff, Pos.ofRecord?_eq_some_iff hrecord,
    listed_eq_some_iff hrecord hnodes.stmt]

theorem ReadWithin.mapElement (hnodes : nodes.ReadWithin levels) :
    ReadsWithin (levels + 1) nodes.mapElement? MapElement.document := by
  intro json hdepth element
  obtain ⟨pos, key, value⟩ := element
  rw [mapElement?, MapElement.document]
  refine bind_record?_eq_some_iff hdepth (by rfl) fun record hrecord => ?_
  simp [Option.bind_eq_some_iff, Pos.ofRecord?_eq_some_iff hrecord, Field.text,
    required_eq_some_iff hrecord (readsWithin_str _), required_eq_some_iff hrecord hnodes.expr]

/-- The fields beside the tag of an expression are read in their order. -/
theorem exprOfTag?_eq_some_iff (hnodes : nodes.ReadWithin levels) {json : Json}
    (hdepth : json.depth ≤ levels + 1) (expr : Expr) :
    nodes.exprOfTag? expr.tag json = some expr ↔
      (Document.record expr.document.besideTag).FoundIn json := by
  cases expr with
  | ident id =>
      have hid := Ident.readsWithin _ json hdepth
      simp [Expr.tag, exprOfTag?, Expr.document, tagged, Document.besideTag,
        Option.bind_eq_some_iff, hid, Ident.document]
  | _ =>
      simp only [Expr.tag, exprOfTag?, Expr.document, tagged, Document.besideTag,
        Expr.documentOption_eq_map, Expr.documentList_eq_map, MapElement.documentList_eq_map]
      refine bind_record?_eq_some_iff hdepth (by simp) fun record hrecord => ?_
      have hpos := Pos.ofRecord?_eq_some_iff hrecord
      have hstr := required_eq_some_iff hrecord (readsWithin_str levels)
      have hbool := required_eq_some_iff hrecord (readsWithin_bool levels)
      have hchar := required_eq_some_iff hrecord (readsWithin_char levels)
      have hbinaryOp := required_eq_some_iff hrecord (readsWithin_binaryOp levels)
      have hunaryOp := required_eq_some_iff hrecord (readsWithin_unaryOp levels)
      have hexpr := required_eq_some_iff hrecord hnodes.expr
      have hoption := optional_eq_some_iff hrecord hnodes.expr Expr.not_foundIn_null
      have hexprs := listed_eq_some_iff hrecord hnodes.expr
      have hparams := listed_eq_some_iff hrecord (Ident.readsWithin levels)
      have helements := listed_eq_some_iff hrecord (hnodes.mapElement.mono (Nat.le_succ _))
      have hbody := required_eq_some_iff hrecord (hnodes.block.mono (Nat.le_succ _))
      simp only [Block.document] at hbody
      simp [Option.bind_eq_some_iff, Field.text, hpos, hstr, hbool, hchar, hbinaryOp, hunaryOp,
        hexpr, hoption, hexprs, hparams, helements, hbody]

theorem stmtOfTag?_eq_some_iff (hnodes : nodes.ReadWithin levels) {json : Json}
    (hdepth : json.depth ≤ levels + 1) (stmt : Stmt) :
    nodes.stmtOfTag? stmt.tag json = some stmt ↔
      (Document.record stmt.document.besideTag).FoundIn json := by
  cases stmt with
  | block body =>
      have hbody := hnodes.block json hdepth
      simp [Stmt.tag, stmtOfTag?, Stmt.document, tagged, Document.besideTag,
        Option.bind_eq_some_iff, hbody, Block.document]
  | _ =>
      simp only [Stmt.tag, stmtOfTag?, Stmt.document, tagged, Document.besideTag,
        Expr.documentOption_eq_map, Expr.documentList_eq_map, Stmt.documentOption_eq_map]
      refine bind_record?_eq_some_iff hdepth (by simp) fun record hrecord => ?_
      have hpos := Pos.ofRecord?_eq_some_iff hrecord
      have hassignOp := required_eq_some_iff hrecord (readsWithin_assignOp levels)
      have hincDecOp := required_eq_some_iff hrecord (readsWithin_incDecOp levels)
      have hbranchOp := required_eq_some_iff hrecord (readsWithin_branchOp levels)
      have hexpr := required_eq_some_iff hrecord hnodes.expr
      have hoption := optional_eq_some_iff hrecord hnodes.expr Expr.not_foundIn_null
      have hexprs := required_eq_some_iff hrecord hnodes.expr.list
      have hstmt := optional_eq_some_iff hrecord hnodes.stmt Stmt.not_foundIn_null
      have hid := required_eq_some_iff hrecord (Ident.readsWithin levels)
      have hkey := optional_eq_some_iff hrecord (Ident.readsWithin levels) Ident.not_foundIn_null
      have hbody := required_eq_some_iff hrecord (hnodes.block.mono (Nat.le_succ _))
      simp only [Block.document] at hbody
      simp [Option.bind_eq_some_iff, Field.text, hpos, hassignOp, hincDecOp, hbranchOp, hexpr,
        hoption, hexprs, hstmt, hid, hkey, hbody]

theorem ReadWithin.above (hnodes : nodes.ReadWithin levels) :
    nodes.above.ReadWithin (levels + 1) where
  expr json hdepth expr := by
    rw [expr.document_eq_tagged]
    exact bind_tagged?_eq_some_iff expr.type_notMem_besideTag hdepth
      (fun _ _ => tag_eq_of_exprOfTag?_eq_some) fun inner hinner =>
        exprOfTag?_eq_some_iff hnodes hinner expr
  stmt json hdepth stmt := by
    rw [stmt.document_eq_tagged]
    exact bind_tagged?_eq_some_iff stmt.type_notMem_besideTag hdepth
      (fun _ _ => tag_eq_of_stmtOfTag?_eq_some) fun inner hinner =>
        stmtOfTag?_eq_some_iff hnodes hinner stmt

/-- As many levels of readers are enough as the value has. -/
theorem readWithin_ofLevels (levels : Nat) : (ofLevels levels).ReadWithin levels := by
  induction levels with
  | zero =>
      constructor
      · intro json hdepth expr
        have hflat : ¬ expr.document.FoundIn json :=
          fun hfound => absurd (Expr.depth_pos_of_foundIn hfound) (by omega)
        simp [ofLevels, hflat]
      · intro json hdepth stmt
        have hflat : ¬ stmt.document.FoundIn json :=
          fun hfound => absurd (Stmt.depth_pos_of_foundIn hfound) (by omega)
        simp [ofLevels, hflat]
  | succ levels ih => exact ih.above

end NodeReaders

/-! ## Files -/

theorem File.ofJson?_eq_some_iff_foundIn {json : Json} (hdepth : json.depth ≤ maxDepth)
    (file : File) : File.ofJson? json = some file ↔ file.document.FoundIn json := by
  rw [File.ofJson?, if_pos hdepth, File.document, Stmt.documentList_eq_map]
  refine bind_record?_eq_some_iff (Nat.le_succ_of_le hdepth) (by rfl) fun record hrecord => ?_
  have hstmts := listed_eq_some_iff hrecord (NodeReaders.readWithin_ofLevels maxDepth).stmt
  cases file
  simp [Option.bind_eq_some_iff, hstmts]

end Script

/-- A value is read as a file exactly if it represents the document of the file. -/
theorem ofJson?_eq_some_iff_represents {json : Json} (hkeys : json.DistinctKeys)
    (hdepth : json.depth ≤ maxDepth) (file : File) :
    File.ofJson? json = some file ↔ json.Represents file.document := by
  rw [File.ofJson?_eq_some_iff_foundIn hdepth]
  constructor
  · exact file.document.represents_of_foundIn file.wellFormed_document
  · exact file.document.foundIn_of_represents file.wellFormed_document hkeys

/-- Objects and arrays in one another, fields out of order, left out, unknown or `null`. -/
def mixedForms : Json :=
  .obj
    [("comment", .obj [("stmts", .null)]),
      ("stmts", .arr
        [.arr
            [.str "Return", .arr [.int 1, .int 7],
              .obj [("name", .str "x"), ("type", .str "Ident")]],
          .obj
            [("body", .arr []), ("init", .null),
              ("pos", .obj [("column", .int 2), ("line", .int 3)]), ("type", .str "For"),
              ("post", .arr [.str "Block"])],
          .arr [.str "Branch", .obj [("line", .int 0), ("column", .int 0)], .str "break"]])]

def mixedTree : File where
  stmts :=
    [.ret ⟨1, 7⟩ (some (.ident { name := "x" })), .loop ⟨3, 2⟩ none none (some (.block {})) {},
      .branch {} .break]

theorem represents_mixedForms :
    mixedForms.DistinctKeys ∧ mixedForms.depth ≤ maxDepth ∧
      File.ofJson? mixedForms = some mixedTree ∧ mixedForms.Represents mixedTree.document := by
  have hkeys : mixedForms.DistinctKeys := by
    simp [mixedForms, Json.DistinctKeys, Json.DistinctKeysOfItems, Json.DistinctKeysOfFields]
  have hdepth : mixedForms.depth ≤ maxDepth := by decide
  have hread : File.ofJson? mixedForms = some mixedTree := rfl
  exact ⟨hkeys, hdepth, hread, (ofJson?_eq_some_iff_represents hkeys hdepth mixedTree).1 hread⟩

/-! ## Writing and reading again -/

namespace Script.File

theorem represents_of_ofJson?_eq_some {json : Json} {file : File}
    (hread : File.ofJson? json = some file) : json.Represents file.document := by
  by_cases hdepth : json.depth ≤ maxDepth
  · rw [ofJson?_eq_some_iff_foundIn hdepth] at hread
    exact file.document.represents_of_foundIn file.wellFormed_document hread
  · simp [ofJson?, hdepth] at hread

/-- What is written is read again unless it nests too deep. -/
theorem ofJson?_toJson (file : File) :
    File.ofJson? file.toJson = if file.toJson.depth ≤ maxDepth then some file else none := by
  split
  · next hdepth =>
      rw [ofJson?_eq_some_iff_foundIn hdepth, ← file.toJson_document]
      exact file.document.foundIn_of_represents file.wellFormed_document
        (file.document.distinctKeys_toJson file.wellFormed_document)
        file.document.represents_toJson
  · next hdepth => rw [ofJson?, if_neg hdepth]

end Script.File

/-- A file that was read from at most 126 levels is written with at most one level more, and what is
written is read as the same file.  In general it is read again just if it nests at most 127 deep. -/
theorem ofJson?_toJson_of_ofJson?_eq_some :
    (∀ (json : Json) (file : File), json.depth ≤ 126 → File.ofJson? json = some file →
      file.toJson.depth ≤ json.depth + 1 ∧ File.ofJson? file.toJson = some file ∧
        (File.ofJson? file.toJson).map File.toJson = some file.toJson) ∧
      ∀ file : File,
        File.ofJson? file.toJson = if file.toJson.depth ≤ 127 then some file else none := by
  refine ⟨fun json file hdepth hread => ?_, File.ofJson?_toJson⟩
  have hwritten : file.toJson.depth ≤ json.depth + 1 := by
    rw [← file.toJson_document]
    exact file.document.depth_toJson_le file.wellFormed_document
      (File.represents_of_ofJson?_eq_some hread)
  have hagain : File.ofJson? file.toJson = some file := by
    rw [File.ofJson?_toJson, if_pos (by unfold maxDepth; omega)]
  exact ⟨hwritten, hagain, by rw [hagain]; rfl⟩

/-- Parentheses around a literal without a position. -/
def parensForm : Nat → Json
  | 0 => .arr [.str "UndefinedLit"]
  | n + 1 => .arr [.str "Paren", .arr [.int 0, .int 0], parensForm n]

def parensTree : Nat → Expr
  | 0 => .undefined {}
  | n + 1 => .paren {} (parensTree n)

/-- The position of the literal is what the last level is needed for. -/
def deepForm : Json := .arr [.arr [.arr [.str "Return", .arr [.int 0, .int 0], parensForm 122]]]

def deepTree : File where
  stmts := [.ret {} (some (parensTree 122))]

set_option maxRecDepth 20000 in
theorem ofJson?_toJson_deepTree :
    deepForm.depth = 126 ∧ File.ofJson? deepForm = some deepTree ∧ deepTree.toJson.depth = 127 ∧
      File.ofJson? deepTree.toJson = some deepTree := by
  have hdepth : deepForm.depth = 126 := by decide
  have hread : File.ofJson? deepForm = some deepTree := rfl
  have hwritten : deepTree.toJson.depth = 127 := by decide
  obtain ⟨-, hagain, -⟩ :=
    ofJson?_toJson_of_ofJson?_eq_some.1 deepForm deepTree (Nat.le_of_eq hdepth) hread
  exact ⟨hdepth, hread, hwritten, hagain⟩

end LuaBackend
