import LuaBackend.Proofs.CodeParts

/-!
# Tables of arrays and maps

Arrays and maps both become tables of Lua, and the support code takes a table for an array if it
has the array mark.  `Lua.Field.entries` reads a table constructor by the rules of Lua: a field
without a key takes the next position, and positions count from 1.

The constructor of an array has one entry for each element, from key 0 on, and the mark.  That of a
map has the mark just if the script itself has a key of this name.
-/

namespace LuaBackend

open Script

namespace Lua

/-! ## Reading table constructors -/

/-- A key that is known before the program runs. -/
inductive Key where
  | number (value : Nat)
  | string (value : String)
deriving DecidableEq, Repr, Inhabited

/-- Only decimal digits are read as a number. -/
def Expr.key? : Expr → Option Key
  | .numeral digits =>
    if digits ≠ "" ∧ digits.toList.all Char.isDigit then
      some (.number (Nat.ofDigitChars 10 digits.toList 0))
    else none
  | .str value => some (.string value)
  | _ => none

/-- What the fields of a constructor assign, in their order, if the next field without a key takes
the given position.  A key that is computed is left open. -/
def Field.entries (position : Nat) : List Field → List (Option Key × Expr)
  | [] => []
  | .item value :: fields => (some (.number position), value) :: Field.entries (position + 1) fields
  | .keyed key value :: fields => (key.key?, value) :: Field.entries position fields
  | .named name value :: fields => (some (.string name), value) :: Field.entries position fields

/-- A call that stands last and has no key gives all of its values. -/
def Field.isOpen (fields : List Field) : Bool :=
  match fields.getLast? with
  | some (.item value) => value.isCall
  | _ => false

/-- The keys of a constructor with the texts of their values. -/
def Field.entryTexts (indent : String) (level : Nat) (fields : List Field) :
    List (Option Key × String) :=
  (Field.entries 1 fields).map fun entry => (entry.1, entry.2.print indent level)

/-- An entry has the key. -/
def Field.HasKey (fields : List Field) (key : String) : Prop :=
  some (.string key) ∈ (Field.entries 1 fields).map Prod.fst

instance (fields : List Field) (key : String) : Decidable (Field.HasKey fields key) :=
  inferInstanceAs (Decidable (_ ∈ _))

/-! ## Arrays -/

theorem Field.entries_items (position : Nat) (elements : List Expr) (rest : List Field) :
    Field.entries position ((elements.map fun value => .item (.paren value)) ++ rest) =
      (elements.zipIdx position).map (fun (value, i) => (some (.number i), .paren value)) ++
        Field.entries (position + elements.length) rest := by
  induction elements generalizing position with
  | nil => rfl
  | cons element elements ih =>
      have hlength : position + 1 + elements.length = position + (element :: elements).length := by
        rw [List.length_cons]
        omega
      rw [List.map_cons, List.cons_append, Field.entries, ih, List.zipIdx_cons, List.map_cons,
        List.cons_append, hlength]

/-- The fields of an array, read by the rules of Lua: the first element is written with its key, so
that the others begin at position 1. -/
theorem Expr.exists_array_eq_table (elements : List Expr) :
    ∃ fields, Expr.array elements = .table fields ∧ Field.isOpen fields = false ∧
      Field.entries 1 fields =
        (if elements = [] then [(some (.number 0), .nil)]
          else elements.zipIdx.map fun (value, i) => (some (.number i), .paren value)) ++
          [(some (.string Names.arrayMark), .bool true)] := by
  have hzero : (Expr.numeral "0").key? = some (.number 0) := by decide
  cases elements with
  | nil =>
      refine ⟨_, rfl, rfl, ?_⟩
      simp only [List.cons_append, List.nil_append, Field.entries, hzero, if_true]
  | cons first others =>
      refine ⟨_, rfl, ?_, ?_⟩
      · rw [Field.isOpen, List.getLast?_concat]
      · rw [List.cons_append, Field.entries, Field.entries_items, hzero,
          if_neg (List.cons_ne_nil _ _), List.zipIdx_cons]
        rfl

end Lua

/-! ## Maps -/

namespace Script

def Expr.isArray : Expr → Bool
  | .array .. => true
  | _ => false

def Expr.isMap : Expr → Bool
  | .map .. => true
  | _ => false

/-- The keys that a map is written with. -/
def Expr.mapKeys : Expr → List String
  | .map _ elements => elements.map MapElement.key
  | _ => []

theorem Expr.lowerList_eq_map (exprs : List Expr) : Expr.lowerList exprs = exprs.map Expr.lower := by
  induction exprs with
  | nil => rfl
  | cons expr exprs ih => rw [Expr.lowerList, ih, List.map_cons]

theorem MapElement.map_fst_entries (elements : List MapElement) :
    (Lua.Field.entries 1 (MapElement.lowerList elements)).map Prod.fst =
      elements.map fun element => some (.string element.key) := by
  induction elements with
  | nil => rfl
  | cons element elements ih =>
      obtain ⟨pos, key, value⟩ := element
      rw [MapElement.lowerList, Lua.Field.entries, List.map_cons, ih]
      rfl

/-- The constructor of an array or a map, with the keys that it has. -/
theorem Expr.exists_lower_eq_table {expr : Expr} (hliteral : expr.isArray ∨ expr.isMap) :
    ∃ fields, expr.lower = .table fields ∧
      ∀ key, Lua.Field.HasKey fields key ↔
        (expr.isArray ∧ key = Names.arrayMark) ∨ key ∈ expr.mapKeys := by
  cases expr with
  | array pos elements =>
      obtain ⟨fields, hlower, -, hentries⟩ :=
        Lua.Expr.exists_array_eq_table (Expr.lowerList elements)
      refine ⟨fields, hlower, fun key => ?_⟩
      rw [Lua.Field.HasKey, hentries]
      split <;> simp [Expr.isArray, Expr.mapKeys]
  | map pos elements =>
      refine ⟨MapElement.lowerList elements, rfl, fun key => ?_⟩
      rw [Lua.Field.HasKey, MapElement.map_fst_entries]
      simp [Expr.isArray, Expr.mapKeys]
  | _ => simp [Expr.isArray, Expr.isMap] at hliteral

end Script

/-- Every array and every map of a converted script stands in the text as a table constructor.  It
has the array mark if it comes from an array, or from a map with a key of this name.  The entries
for an array are its elements in parentheses, which cut a call down to one value, and the mark. -/
theorem literal_entries {options : Options} {file : File} {text : String}
    (htext : file.toLua options = .ok text) {place : Place} {expr : Expr}
    (hsite : ⟨place, .expr expr⟩ ∈ file.sites) (hliteral : expr.isArray ∨ expr.isMap) :
    ∃ (fields : List Lua.Field) (level : Nat), expr.lower = .table fields ∧
      Lua.Occurs ("\x7b" ++ Lua.Field.printList options.indent level fields ++ "\x7d") text ∧
      (Lua.Field.HasKey fields Names.arrayMark ↔
        expr.isArray ∨ Names.arrayMark ∈ expr.mapKeys) ∧
      ∀ pos elements, expr = .array pos elements →
        Lua.Field.isOpen fields = false ∧
          Lua.Field.entryTexts options.indent level fields =
            (if elements = [] then [(some (.number 0), "nil")]
              else elements.zipIdx.map fun (element, i) =>
                (some (.number i), "(" ++ element.lower.print options.indent level ++ ")")) ++
              [(some (.string Names.arrayMark), "true")] := by
  obtain ⟨fields, hlower, hkeys⟩ := Expr.exists_lower_eq_table hliteral
  have hemits := File.emits_parts (File.wellFormed_of_toLua_eq_ok htext) options.binding
  have hpart : Lua.Part.expr (.table fields) ∈ file.parts options.binding := by
    apply (hemits _ hsite).2
    rw [Node.parts, hlower]
    exact List.mem_cons_self
  obtain ⟨level, hoccurs⟩ := File.prints_parts htext _ hpart
  refine ⟨fields, level, hlower, hoccurs, ?_, ?_⟩
  · simpa using hkeys Names.arrayMark
  · rintro pos elements rfl
    obtain ⟨_, hlower', hclosed, hentries⟩ :=
      Lua.Expr.exists_array_eq_table (Expr.lowerList elements)
    obtain rfl := Lua.Expr.table.inj (hlower.symm.trans hlower')
    refine ⟨hclosed, ?_⟩
    rw [Lua.Field.entryTexts, hentries, Expr.lowerList_eq_map, List.map_append]
    simp only [List.map_eq_nil_iff]
    split
    · rfl
    · rw [List.zipIdx_map, List.map_map, List.map_map]
      rfl

/-- `rows := [[], [len("a"), 2]]` and `table := {"rows": rows}`. -/
def nestedTables : File where
  stmts :=
    [.assign {} .define [.ident { name := "rows" }]
        [.array {} [.array {} [],
          .array {} [.call {} (.ident { name := "len" }) [.str {} "a"], .int {} "2"]]],
      .assign {} .define [.ident { name := "table" }]
        [.map {} [⟨{}, "rows", .ident { name := "rows" }⟩]]]

theorem literal_entries_nestedTables :
    let row : Expr := .array {} [.call {} (.ident { name := "len" }) [.str {} "a"], .int {} "2"]
    (⟨.root, .expr row⟩ ∈ nestedTables.sites) ∧
      ∃ text, nestedTables.toLua {} = .ok text ∧
        ∃ fields level,
          Lua.Occurs ("\x7b" ++ Lua.Field.printList "  " level fields ++ "\x7d") text ∧
            Lua.Field.HasKey fields Names.arrayMark ∧
            Lua.Field.entryTexts "  " level fields =
              [(some (.number 0), "(len(\"a\"))"), (some (.number 1), "(2)"),
                (some (.string "__a"), "true")] := by
  intro row
  have hsite : ⟨.root, .expr row⟩ ∈ nestedTables.sites := by
    simp [row, nestedTables, File.sites, Stmt.sitesOfList, Stmt.sites, Expr.sitesOfDefined,
      Expr.sitesOfList, Expr.sites, Expr.isFunction]
  obtain ⟨text, htext⟩ : ∃ text, nestedTables.toLua {} = .ok text := ⟨_, rfl⟩
  obtain ⟨fields, level, -, hoccurs, hmark, hentries⟩ :=
    literal_entries htext hsite (.inl rfl)
  refine ⟨hsite, text, htext, fields, level, hoccurs, hmark.2 (.inl rfl), ?_⟩
  exact (hentries _ _ rfl).2.trans rfl

/-- `m := {"__a": 1}`. -/
def markedMap : File where
  stmts := [.assign {} .define [.ident { name := "m" }] [.map {} [⟨{}, "__a", .int {} "1"⟩]]]

/-- A map whose own key is the array mark has the mark. -/
theorem hasKey_arrayMark_markedMap :
    let map : Expr := .map {} [⟨{}, "__a", .int {} "1"⟩]
    markedMap.toLua {} = .ok "local m = \x7b[\"__a\"]=(1)\x7d\n" ∧
      (⟨.root, .expr map⟩ ∈ markedMap.sites) ∧ map.isArray = false ∧
      ∃ fields, map.lower = .table fields ∧ Lua.Field.HasKey fields Names.arrayMark := by
  refine ⟨rfl, ?_, rfl, _, rfl, by decide⟩
  simp [markedMap, File.sites, Stmt.sitesOfList, Stmt.sites, Expr.sitesOfDefined,
    Expr.sitesOfList, Expr.sites, Expr.isFunction]

end LuaBackend
