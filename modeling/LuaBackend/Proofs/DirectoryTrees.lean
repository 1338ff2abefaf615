import LuaBackend.Fixture.Directory
import LuaBackend.Proofs.TextLines

/-!
# Directory trees and their paths

In a directory tree (`Entry.IsTree`) every entry of a directory has a name of its own, which can
stand between the slashes of a path.  What a path leads to is then again a directory tree, and the
path of a directory, a slash and the name of an entry lead to that entry (`find?_slashed`).
-/

namespace LuaBackend.Fixture

/-- A name that an entry of a directory can have. -/
structure IsName (name : String) : Prop where
  no_slash : '/' ∉ name.toList
  ne_empty : name ≠ ""
  ne_dot : name ≠ "."
  ne_dots : name ≠ ".."

instance (name : String) : Decidable (IsName name) :=
  decidable_of_iff ('/' ∉ name.toList ∧ name ≠ "" ∧ name ≠ "." ∧ name ≠ "..")
    ⟨fun h => ⟨h.1, h.2.1, h.2.2.1, h.2.2.2⟩,
      fun h => ⟨h.no_slash, h.ne_empty, h.ne_dot, h.ne_dots⟩⟩

/-- The names in a listing. -/
def names (entries : List (String × Entry)) : List String := entries.map Prod.fst

/-- A tree as a file system holds it: the entries of a directory have different names. -/
inductive Entry.IsTree : Entry → Prop where
  | file (text : String) : IsTree (.file text)
  | directory {entries : List (String × Entry)} (hnodup : (names entries).Nodup)
      (hnames : ∀ name ∈ names entries, IsName name)
      (htrees : ∀ entry ∈ entries, IsTree entry.2) : IsTree (.directory entries)

/-! ## Entries by their names -/

theorem lookup_eq_none_iff_not_mem_names {entries : List (String × Entry)} {name : String} :
    entries.lookup name = none ↔ name ∉ names entries := by
  simp only [List.lookup_eq_none_iff, names, List.mem_map, bne_iff_ne, ne_eq, not_exists, not_and]
  exact forall₂_congr fun entry _ => not_congr eq_comm

theorem lookup_eq_some_iff_mem {entries : List (String × Entry)} (hnodup : (names entries).Nodup)
    {name : String} {entry : Entry} :
    entries.lookup name = some entry ↔ (name, entry) ∈ entries := by
  rw [List.lookup_eq_some_iff]
  constructor
  · rintro ⟨before, after, rfl, -⟩
    simp
  · intro hmem
    obtain ⟨before, after, rfl⟩ := List.append_of_mem hmem
    refine ⟨before, after, rfl, ?_⟩
    intro other hother
    rw [names, List.map_append, List.nodup_append] at hnodup
    rw [bne_iff_ne]
    exact (hnodup.2.2 other.1 (List.mem_map_of_mem hother) name (by simp)).symm

namespace Entry

variable {entries : List (String × Entry)} {name : String} {entry : Entry}

theorem isTree_directory_iff :
    (directory entries).IsTree ↔ (names entries).Nodup ∧ (∀ name ∈ names entries, IsName name) ∧
      ∀ entry ∈ entries, entry.2.IsTree := by
  constructor
  · intro htree
    cases htree with
    | directory hnodup hnames htrees => exact ⟨hnodup, hnames, htrees⟩
  · rintro ⟨hnodup, hnames, htrees⟩
    exact .directory hnodup hnames htrees

theorem IsTree.nodup (htree : (Entry.directory entries).IsTree) : (names entries).Nodup :=
  (isTree_directory_iff.1 htree).1

theorem IsTree.isName_of_mem (htree : (Entry.directory entries).IsTree)
    (hmem : (name, entry) ∈ entries) : IsName name :=
  (isTree_directory_iff.1 htree).2.1 name (List.mem_map_of_mem hmem)

theorem IsTree.of_mem (htree : (Entry.directory entries).IsTree)
    (hmem : (name, entry) ∈ entries) : entry.IsTree :=
  (isTree_directory_iff.1 htree).2.2 _ hmem

end Entry

/-! ## Paths part by part -/

namespace Entry

section Steps

variable {above : List Entry} {entries : List (String × Entry)} {part : String}
  {parts : List String}

theorem walk?_cons_stay (hpart : part = "" ∨ part = ".") :
    walk? above (directory entries) (part :: parts) = walk? above (directory entries) parts := by
  cases above <;> rw [walk?, if_pos hpart]

theorem walk?_cons_leave (parent : Entry) :
    walk? (parent :: above) (directory entries) (".." :: parts) = walk? above parent parts := by
  rw [walk?, if_neg (by decide), if_pos rfl]

theorem walk?_cons_enter (hpart : ¬(part = "" ∨ part = ".")) (hdots : part ≠ "..") :
    walk? above (directory entries) (part :: parts) =
      (entries.lookup part).bind fun entry => walk? (directory entries :: above) entry parts := by
  cases above <;> rw [walk?, if_neg hpart, if_neg hdots] <;> cases entries.lookup part <;> rfl

end Steps

section Walks

variable {above : List Entry} {entry found : Entry} {parts : List String}

/-- A path leads from a tree to a tree, also through the directories above. -/
theorem isTree_of_walk? (habove : ∀ parent ∈ above, parent.IsTree) (htree : entry.IsTree)
    (hwalk : walk? above entry parts = some found) : found.IsTree := by
  fun_induction walk? above entry parts with
  | case1 above entry =>
      obtain rfl := Option.some.inj hwalk
      exact htree
  | case2 => cases hwalk
  | case3 above entries part parts _ ih => exact ih habove htree hwalk
  | case4 => cases hwalk
  | case5 entries parts parent above _ ih =>
      obtain ⟨hparent, habove⟩ := List.forall_mem_cons.1 habove
      exact ih habove hparent hwalk
  | case6 => cases hwalk
  | case7 above entries part parts _ _ entry hentry ih =>
      have hmem := (lookup_eq_some_iff_mem htree.nodup).1 hentry
      exact ih (List.forall_mem_cons.2 ⟨htree, habove⟩) (htree.of_mem hmem) hwalk

/-- A longer path goes on from where the shorter one leads. -/
theorem exists_walk?_append (hwalk : walk? above entry parts = some found) :
    ∃ above' : List Entry, ∀ more, walk? above entry (parts ++ more) = walk? above' found more := by
  fun_induction walk? above entry parts with
  | case1 above entry =>
      obtain rfl := Option.some.inj hwalk
      exact ⟨above, fun _ => rfl⟩
  | case2 => cases hwalk
  | case3 above entries part parts hpart ih =>
      obtain ⟨above', hmore⟩ := ih hwalk
      exact ⟨above', fun more => by rw [List.cons_append, walk?_cons_stay hpart, hmore]⟩
  | case4 => cases hwalk
  | case5 entries parts parent above _ ih =>
      obtain ⟨above', hmore⟩ := ih hwalk
      exact ⟨above', fun more => by rw [List.cons_append, walk?_cons_leave, hmore]⟩
  | case6 => cases hwalk
  | case7 above entries part parts hpart hdots entry hentry ih =>
      obtain ⟨above', hmore⟩ := ih hwalk
      refine ⟨above', fun more => ?_⟩
      rw [List.cons_append, walk?_cons_enter hpart hdots, hentry, Option.bind_some, hmore]

theorem walk?_append_of_eq_none (hwalk : walk? above entry parts = none) (more : List String) :
    walk? above entry (parts ++ more) = none := by
  fun_induction walk? above entry parts with
  | case1 => cases hwalk
  | case2 => rfl
  | case3 above entries part parts hpart ih =>
      rw [List.cons_append, walk?_cons_stay hpart, ih hwalk]
  | case4 entries parts hdots => rw [List.cons_append, walk?, if_neg hdots, if_pos rfl]
  | case5 entries parts parent above _ ih =>
      rw [List.cons_append, walk?_cons_leave, ih hwalk]
  | case6 above entries part parts hpart hdots hentry =>
      rw [List.cons_append, walk?_cons_enter hpart hdots, hentry, Option.bind_none]
  | case7 above entries part parts hpart hdots entry hentry ih =>
      rw [List.cons_append, walk?_cons_enter hpart hdots, hentry, Option.bind_some, ih hwalk]

end Walks

theorem walk?_name {above : List Entry} {entries : List (String × Entry)} {name : String}
    (hname : IsName name) : walk? above (directory entries) [name] = entries.lookup name := by
  have hpart : ¬(name = "" ∨ name = ".") := not_or.2 ⟨hname.ne_empty, hname.ne_dot⟩
  rw [walk?_cons_enter hpart hname.ne_dots]
  cases entries.lookup name <;> rfl

/-- An empty part at the end of a path only asks for a directory. -/
theorem walk?_of_append_empty {above : List Entry} {entry : Entry} {parts : List String}
    {entries : List (String × Entry)}
    (hwalk : walk? above entry (parts ++ [""]) = some (directory entries)) :
    walk? above entry parts = some (directory entries) := by
  cases hfound : walk? above entry parts with
  | none =>
      rw [walk?_append_of_eq_none hfound] at hwalk
      cases hwalk
  | some found =>
      obtain ⟨above', hmore⟩ := exists_walk?_append hfound
      rw [hmore] at hwalk
      cases found with
      | file text => cases hwalk
      | directory files =>
          rw [walk?_cons_stay (.inl rfl)] at hwalk
          exact hwalk

/-! ## Paths as texts -/

/-- What a path leads to, without regard to how it is written. -/
theorem find?_eq_some {root found : Entry} {path : String} (hfind : root.find? path = some found) :
    path ≠ "" ∧ path.toList.head? ≠ some '/' ∧
      walk? [] root ((Text.split '/' path.toList).map String.ofList) = some found := by
  unfold find? at hfind
  split_ifs at hfind with hpath
  simp only [String.isEmpty_iff, not_or] at hpath
  exact ⟨hpath.1, hpath.2, hfind⟩

theorem isTree_of_find? {root found : Entry} {path : String} (htree : root.IsTree)
    (hfind : root.find? path = some found) : found.IsTree :=
  isTree_of_walk? (by simp) htree (find?_eq_some hfind).2.2

theorem find?_name {entries : List (String × Entry)} {name : String} (hname : IsName name) :
    (directory entries).find? name = entries.lookup name := by
  have hrelative : ¬(name.isEmpty = true ∨ name.toList.head? = some '/') := by
    rw [String.isEmpty_iff]
    exact not_or.2 ⟨hname.ne_empty, fun hslash => hname.no_slash (List.mem_of_head? hslash)⟩
  rw [find?, if_neg hrelative, Text.split_of_not_mem hname.no_slash, List.map_singleton,
    String.ofList_toList, walk?_name hname]

end Entry

/-- The path of a directory with one slash behind it, which may be there already. -/
def slashed (dir : String) : String :=
  if dir.toList.getLast? = some '/' then dir else dir ++ "/"

theorem slashed_append {dir name : String} (hname : IsName name) (file : String) :
    slashed (dir ++ name) ++ file = dir ++ name ++ ("/" ++ file) := by
  have hlast : (dir ++ name).toList.getLast? ≠ some '/' := by
    have hne : name.toList ≠ [] := mt String.toList_eq_nil_iff.1 hname.ne_empty
    rw [String.toList_append, List.getLast?_append_of_ne_nil _ hne]
    intro hslash
    exact hname.no_slash (List.mem_of_getLast? hslash)
  rw [slashed, if_neg hlast, String.append_assoc]

theorem joinPath_eq_slashed {dir name : String} (hdir : dir ≠ "") (hname : IsName name) :
    joinPath dir name = slashed dir ++ name := by
  have hhead : name.toList.head? ≠ some '/' := by
    intro hslash
    exact hname.no_slash (List.mem_of_head? hslash)
  have hrelative : ¬(name.toList.head? = some '/' ∨ dir.isEmpty = true) := by
    rw [String.isEmpty_iff]
    exact not_or.2 ⟨hhead, hdir⟩
  rw [joinPath, if_neg hrelative, slashed]
  split_ifs <;> rfl

/-- The path of a directory goes on with a slash and the name of an entry. -/
theorem find?_slashed {root : Entry} {dir name : String} {entries : List (String × Entry)}
    (hdir : root.find? dir = some (.directory entries)) (hname : IsName name) :
    root.find? (slashed dir ++ name) = entries.lookup name := by
  obtain ⟨hne, hhead, hwalk⟩ := Entry.find?_eq_some hdir
  -- Without its last slash, the path still leads to the directory.
  obtain ⟨front, hfront, hwalk'⟩ : ∃ front, (slashed dir).toList = front ++ ['/'] ∧
      Entry.walk? [] root ((Text.split '/' front).map String.ofList) =
        some (.directory entries) := by
    unfold slashed
    split_ifs with hslash
    · obtain ⟨front, hfront⟩ := List.getLast?_eq_some_iff.1 hslash
      refine ⟨front, hfront, Entry.walk?_of_append_empty ?_⟩
      rw [hfront, Text.split_append_cons, List.map_append] at hwalk
      exact hwalk
    · exact ⟨dir.toList, String.toList_append, hwalk⟩
  have hpath : (slashed dir ++ name).toList = front ++ '/' :: name.toList := by
    rw [String.toList_append, hfront, List.append_assoc, List.singleton_append]
  have hrelative : ¬((slashed dir ++ name).isEmpty = true ∨
      (slashed dir ++ name).toList.head? = some '/') := by
    have hstart : (slashed dir ++ name).toList.head? = dir.toList.head? := by
      obtain ⟨c, cs, hcs⟩ := List.exists_cons_of_ne_nil (mt String.toList_eq_nil_iff.1 hne)
      unfold slashed
      split_ifs <;> simp [hcs]
    rw [String.isEmpty_iff, hstart]
    exact not_or.2 ⟨fun hnil => by simp [hnil] at hpath, hhead⟩
  obtain ⟨above, hmore⟩ := Entry.exists_walk?_append hwalk'
  rw [Entry.find?, if_neg hrelative, hpath, Text.split_append_cons,
    Text.split_of_not_mem hname.no_slash, List.map_append, hmore]
  simpa using Entry.walk?_name hname

end LuaBackend.Fixture
