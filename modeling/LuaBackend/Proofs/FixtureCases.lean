import LuaBackend.Fixture.Case
import LuaBackend.Proofs.DirectoryTrees

/-!
# Loading the cases of a directory

The cases of a directory do not depend on the order in which its entries are listed, as long as no
case is faulty: there is one for each subdirectory with a description, and they are sorted by their
names.

Without a faulty case, every entry gives a case or nothing (`exists_ofEntry_eq_ok`), so the entries
of a listing give the cases found one by one (`ofEntries_eq_ok`).  Their names are names of entries,
hence different, and a list with different names can be sorted by them in one way only.
-/

namespace LuaBackend.Fixture

/-- A subdirectory with this name has a description. -/
def HasCase (entries : List (String × Entry)) (name : String) : Prop :=
  ∃ files, (name, Entry.directory files) ∈ entries ∧ "case.yaml" ∈ names files

/-- No case is faulty: each has a program, and its description is a text that makes sense. -/
def NoneFaulty (entries : List (String × Entry)) : Prop :=
  ∀ name files, (name, Entry.directory files) ∈ entries → "case.yaml" ∈ names files →
    "program.json" ∈ names files ∧
      ∃ text spec, ("case.yaml", Entry.file text) ∈ files ∧ CaseSpec.ofText? text = some spec

theorem isName_description : IsName "case.yaml" := by decide

theorem isName_program : IsName "program.json" := by decide

namespace Case

/-- The case is the one of the subdirectory with its name: its paths lead there, and its
specification is that of the description which stands there. -/
structure IsOf (root : Entry) (dir : String) (case : Case) : Prop where
  dir_eq : case.dir = slashed dir ++ case.name
  programPath_eq : case.programPath = slashed dir ++ case.name ++ "/program.json"
  spec_eq : (root.readText? (slashed dir ++ case.name ++ "/case.yaml")).bind CaseSpec.ofText? =
    some case.spec

/-! ## The case of one entry -/

theorem ofEntry_eq_ok_some_iff {dir name : String} {entry : Entry} {case : Case} :
    ofEntry dir name entry = .ok (some case) ↔
      ∃ files text program, entry = .directory files ∧
        files.lookup "case.yaml" = some (.file text) ∧
        files.lookup "program.json" = some program ∧
        CaseSpec.ofText? text = some case.spec ∧
        case =
          ⟨name, joinPath dir name, joinPath (joinPath dir name) "program.json", case.spec⟩ := by
  constructor
  · intro h
    cases entry with
    | file text => cases h
    | directory files =>
        cases hdescription : files.lookup "case.yaml" with
        | none => simp [ofEntry, hdescription] at h
        | some description =>
            cases hprogram : files.lookup "program.json" with
            | none => simp [ofEntry, hdescription, hprogram] at h
            | some program =>
                cases description with
                | directory _ => simp [ofEntry, hdescription, hprogram] at h
                | file text =>
                    cases hspec : CaseSpec.ofText? text with
                    | none => simp [ofEntry, hdescription, hprogram, hspec] at h
                    | some spec =>
                        simp only [ofEntry, hdescription, hprogram, hspec] at h
                        obtain rfl := Option.some.inj (Except.ok.inj h)
                        exact ⟨files, text, program, rfl, hdescription, hprogram, hspec, rfl⟩
  · rintro ⟨files, text, program, rfl, hdescription, hprogram, hspec, hcase⟩
    simp only [ofEntry, hdescription, hprogram, hspec]
    rw [← hcase]

theorem name_of_ofEntry_eq {dir name : String} {entry : Entry} {case : Case}
    (h : ofEntry dir name entry = .ok (some case)) : case.name = name := by
  obtain ⟨_, _, _, _, _, _, _, hcase⟩ := ofEntry_eq_ok_some_iff.1 h
  rw [hcase]

section Entries

variable {entries files : List (String × Entry)} {dir name : String} {entry : Entry}

/-- A subdirectory with a description gives a case, since it is not faulty. -/
theorem exists_ofEntry_eq_some (htree : (Entry.directory entries).IsTree)
    (hnone : NoneFaulty entries) (hmem : (name, Entry.directory files) ∈ entries)
    (hcase : "case.yaml" ∈ names files) :
    ∃ case, ofEntry dir name (.directory files) = .ok (some case) := by
  obtain ⟨hprogram, text, spec, htext, hspec⟩ := hnone name files hmem hcase
  have hnodup : (names files).Nodup := (htree.of_mem hmem).nodup
  have hdescription := (lookup_eq_some_iff_mem hnodup).2 htext
  cases hlookup : files.lookup "program.json" with
  | none => exact absurd hprogram (lookup_eq_none_iff_not_mem_names.1 hlookup)
  | some program =>
      exact ⟨⟨name, _, _, spec⟩,
        ofEntry_eq_ok_some_iff.2 ⟨files, text, program, rfl, hdescription, hlookup, hspec, rfl⟩⟩

theorem exists_ofEntry_eq_ok (htree : (Entry.directory entries).IsTree)
    (hnone : NoneFaulty entries) (hmem : (name, entry) ∈ entries) :
    ∃ found, ofEntry dir name entry = .ok found := by
  cases entry with
  | file text => exact ⟨none, rfl⟩
  | directory files =>
      by_cases hcase : "case.yaml" ∈ names files
      · obtain ⟨case, hof⟩ := exists_ofEntry_eq_some htree hnone hmem hcase
        exact ⟨some case, hof⟩
      · have hlookup := lookup_eq_none_iff_not_mem_names.2 hcase
        refine ⟨none, ?_⟩
        simp only [ofEntry, hlookup]

/-- An entry gives a case exactly if it is a subdirectory with a description. -/
theorem hasCase_iff (htree : (Entry.directory entries).IsTree) (hnone : NoneFaulty entries)
    (dir : String) :
    HasCase entries name ↔
      ∃ entry case, (name, entry) ∈ entries ∧ ofEntry dir name entry = .ok (some case) := by
  constructor
  · rintro ⟨files, hmem, hcase⟩
    obtain ⟨case, hof⟩ := exists_ofEntry_eq_some htree hnone hmem hcase
    exact ⟨.directory files, case, hmem, hof⟩
  · rintro ⟨entry, case, hmem, hcase⟩
    obtain ⟨files, text, program, rfl, htext, -⟩ := ofEntry_eq_ok_some_iff.1 hcase
    refine ⟨files, hmem, ?_⟩
    by_contra hnot
    rw [lookup_eq_none_iff_not_mem_names.2 hnot] at htext
    cases htext

theorem isOf_of_ofEntry_eq {root : Entry} {case : Case} (htree : root.IsTree)
    (hdir : root.find? dir = some (.directory entries)) (hmem : (name, entry) ∈ entries)
    (hcase : ofEntry dir name entry = .ok (some case)) : case.IsOf root dir := by
  have hentries : (Entry.directory entries).IsTree := Entry.isTree_of_find? htree hdir
  have hname : IsName name := hentries.isName_of_mem hmem
  have hne : dir ≠ "" := (Entry.find?_eq_some hdir).1
  obtain ⟨files, text, program, rfl, htext, hprogram, hspec, hfields⟩ :=
    ofEntry_eq_ok_some_iff.1 hcase
  obtain rfl : case.name = name := name_of_ofEntry_eq hcase
  have hpath : case.dir = slashed dir ++ case.name := by
    rw [hfields]
    exact joinPath_eq_slashed hne hname
  refine ⟨hpath, ?_, ?_⟩
  · have hprogramPath : case.programPath = joinPath case.dir "program.json" := by rw [hfields]
    have hne' : slashed dir ++ case.name ≠ "" := by
      intro hnil
      exact hname.ne_empty (String.append_eq_empty_iff.1 hnil).2
    rw [hprogramPath, hpath, joinPath_eq_slashed hne' isName_program]
    exact slashed_append hname "program.json"
  · have hfiles : root.find? (slashed dir ++ case.name) = some (.directory files) := by
      rw [find?_slashed hdir hname, lookup_eq_some_iff_mem hentries.nodup]
      exact hmem
    have hdescription : root.find? (slashed dir ++ case.name ++ "/case.yaml") = some (.file text) :=
      calc root.find? (slashed dir ++ case.name ++ "/case.yaml")
          = root.find? (slashed (slashed dir ++ case.name) ++ "case.yaml") :=
            congrArg root.find? (slashed_append hname "case.yaml").symm
        _ = files.lookup "case.yaml" := find?_slashed hfiles isName_description
        _ = some (.file text) := htext
    rw [Entry.readText?, hdescription]
    exact hspec

end Entries

/-! ## The cases of a listing -/

section Listings

variable {dir : String} {entries : List (String × Entry)}

/-- The case that an entry gives, if it gives one. -/
def found? (dir : String) (entry : String × Entry) : Option Case :=
  (ofEntry dir entry.1 entry.2).toOption.join

theorem found?_eq_some_iff {entry : String × Entry} {case : Case} :
    found? dir entry = some case ↔ ofEntry dir entry.1 entry.2 = .ok (some case) := by
  unfold found?
  cases ofEntry dir entry.1 entry.2 with
  | error error => simp [Except.toOption]
  | ok found => simp [Except.toOption]

/-- The cases that the entries of a listing give, in the order of the listing. -/
def listed (dir : String) (entries : List (String × Entry)) : List Case :=
  entries.filterMap (found? dir)

theorem listed_cons (entry : String × Entry) :
    listed dir (entry :: entries) = (found? dir entry).toList ++ listed dir entries := by
  unfold listed
  rw [List.filterMap_cons]
  cases found? dir entry <;> rfl

theorem ofEntries_eq_ok
    (hok : ∀ entry ∈ entries, ∃ found, ofEntry dir entry.1 entry.2 = .ok found) :
    ofEntries dir entries = .ok (listed dir entries) := by
  induction entries with
  | nil => rfl
  | cons entry entries ih =>
      obtain ⟨⟨found, hfound⟩, hrest⟩ := List.forall_mem_cons.1 hok
      have hcons : found? dir entry = found := by
        rw [found?, hfound]
        rfl
      obtain ⟨name, entry⟩ := entry
      rw [ofEntries, hfound, ih hrest, listed_cons, hcons]
      rfl

/-- The names of the cases are names of entries, in the same order. -/
theorem map_name_sublist_names :
    ((listed dir entries).map name).Sublist (names entries) := by
  induction entries with
  | nil => exact List.Sublist.slnil
  | cons entry entries ih =>
      rw [listed_cons]
      cases hfound : found? dir entry with
      | none => exact ih.cons entry.1
      | some case =>
          rw [Option.toList_some, List.singleton_append, List.map_cons,
            name_of_ofEntry_eq (found?_eq_some_iff.1 hfound)]
          exact ih.cons_cons entry.1

/-- The cases in the order of their names. -/
def sorted (cases : List Case) : List Case :=
  cases.mergeSort fun a b => decide (a.name ≤ b.name)

theorem sorted_perm (cases : List Case) : (sorted cases).Perm cases := List.mergeSort_perm _ _

theorem ofDirectory_eq {cases : List Case} (hcases : ofEntries dir entries = .ok cases) :
    ofDirectory dir entries =
      if cases = [] then .error (.noCases dir) else .ok (sorted cases) := by
  rw [ofDirectory, hcases]
  cases cases <;> rfl

theorem pairwise_sorted {cases : List Case} (hnodup : (cases.map name).Nodup) :
    (sorted cases).Pairwise fun a b => a.name < b.name := by
  have hle : (sorted cases).Pairwise fun a b => a.name ≤ b.name := by
    have htrans : ∀ a b c : Case, decide (a.name ≤ b.name) = true →
        decide (b.name ≤ c.name) = true → decide (a.name ≤ c.name) = true := by
      simp only [decide_eq_true_eq]
      exact fun a b c => String.le_trans
    have htotal : ∀ a b : Case, (decide (a.name ≤ b.name) || decide (b.name ≤ a.name)) = true := by
      simp only [Bool.or_eq_true, decide_eq_true_eq]
      exact fun a b => String.le_total a.name b.name
    exact (List.pairwise_mergeSort htrans htotal cases).imp of_decide_eq_true
  have hne : (sorted cases).Pairwise fun a b => a.name ≠ b.name :=
    List.pairwise_map.1 (((sorted_perm cases).map name).nodup_iff.2 hnodup)
  refine (hle.and hne).imp ?_
  rintro a b ⟨hab, hnot⟩
  apply String.not_le.1
  intro hba
  exact hnot (String.le_antisymm hab hba)

/-- Cases with different names can be sorted in one way only. -/
theorem sorted_eq_of_perm {cases cases' : List Case} (hnodup : (cases.map name).Nodup)
    (hperm : cases'.Perm cases) : sorted cases' = sorted cases := by
  have hnodup' : (cases'.map name).Nodup := (hperm.map name).nodup_iff.2 hnodup
  have hsame : (sorted cases').Perm (sorted cases) :=
    (sorted_perm cases').trans (hperm.trans (sorted_perm cases).symm)
  refine hsame.eq_of_pairwise ?_ (pairwise_sorted hnodup') (pairwise_sorted hnodup)
  intro a b _ _ hab hba
  exact absurd (String.lt_trans hab hba) (String.lt_irrefl a.name)

theorem mem_listed_iff {case : Case} :
    case ∈ listed dir entries ↔
      ∃ entry, (case.name, entry) ∈ entries ∧ ofEntry dir case.name entry = .ok (some case) := by
  rw [listed, List.mem_filterMap]
  constructor
  · rintro ⟨⟨name, entry⟩, hmem, hfound⟩
    have hcase := found?_eq_some_iff.1 hfound
    obtain rfl : case.name = name := name_of_ofEntry_eq hcase
    exact ⟨entry, hmem, hcase⟩
  · rintro ⟨entry, hmem, hcase⟩
    exact ⟨(case.name, entry), hmem, found?_eq_some_iff.2 hcase⟩

theorem mem_map_name_iff (htree : (Entry.directory entries).IsTree) (hnone : NoneFaulty entries)
    (dir name : String) :
    name ∈ (listed dir entries).map Case.name ↔ HasCase entries name := by
  rw [List.mem_map, hasCase_iff htree hnone dir]
  constructor
  · rintro ⟨case, hmem, rfl⟩
    obtain ⟨entry, hentry, hcase⟩ := mem_listed_iff.1 hmem
    exact ⟨entry, case, hentry, hcase⟩
  · rintro ⟨entry, case, hentry, hcase⟩
    obtain rfl : case.name = name := name_of_ofEntry_eq hcase
    exact ⟨case, mem_listed_iff.2 ⟨entry, hentry, hcase⟩, rfl⟩

/-- Listings that differ in their order alone give the same cases. -/
theorem ofDirectory_of_perm {relisted : List (String × Entry)}
    (htree : (Entry.directory entries).IsTree) (hnone : NoneFaulty entries)
    (hperm : relisted.Perm entries) :
    ofDirectory dir relisted =
      if listed dir entries = [] then .error (.noCases dir)
      else .ok (sorted (listed dir entries)) := by
  have hok : ∀ entry ∈ relisted, ∃ found, ofEntry dir entry.1 entry.2 = .ok found :=
    fun entry hentry => exists_ofEntry_eq_ok htree hnone (hperm.mem_iff.1 hentry)
  have hfound : (listed dir relisted).Perm (listed dir entries) :=
    hperm.filterMap (found? dir)
  have hnodup : ((listed dir entries).map name).Nodup :=
    map_name_sublist_names.nodup htree.nodup
  have hnil : listed dir relisted = [] ↔ listed dir entries = [] := by
    rw [← List.length_eq_zero_iff, ← List.length_eq_zero_iff, hfound.length_eq]
  rw [ofDirectory_eq (ofEntries_eq_ok hok), sorted_eq_of_perm hnodup hfound]
  simp only [hnil]

end Listings

theorem load_eq_ofDirectory {root : Entry} {dir : String} {entries : List (String × Entry)}
    (hdir : root.find? dir = some (.directory entries)) :
    load root dir = ofDirectory dir entries := by
  rw [load, hdir]

/-- Without a faulty case, the cases of a directory do not depend on the order in which its entries
are listed.  If there are subdirectories with a description, loading gives one case for each of them
and none else, in the order of the names; if there are none, it fails because of that. -/
theorem load_of_noneFaulty {root : Entry} {dir : String} {entries : List (String × Entry)}
    (htree : root.IsTree) (hdir : root.find? dir = some (.directory entries))
    (hnone : NoneFaulty entries) :
    (∀ other relisted, other.find? dir = some (.directory relisted) → relisted.Perm entries →
        load other dir = load root dir) ∧
      ((∃ name, HasCase entries name) →
        ∃ cases, load root dir = .ok cases ∧
          cases.Pairwise (fun a b => a.name < b.name) ∧
          (∀ name, name ∈ cases.map Case.name ↔ HasCase entries name) ∧
          ∀ case ∈ cases, case.IsOf root dir) ∧
      (load root dir = .error (.noCases dir) ↔ ¬∃ name, HasCase entries name) ∧
      (LoadError.noCases dir).message = "No test cases found in " ++ dir := by
  have hentries : (Entry.directory entries).IsTree := Entry.isTree_of_find? htree hdir
  have hload : load root dir =
      if listed dir entries = [] then .error (.noCases dir)
      else .ok (sorted (listed dir entries)) := by
    rw [load_eq_ofDirectory hdir, ofDirectory_of_perm hentries hnone (List.Perm.refl entries)]
  have hnil : listed dir entries = [] ↔ ¬∃ name, HasCase entries name := by
    simp only [← mem_map_name_iff hentries hnone dir]
    rw [not_exists, ← List.eq_nil_iff_forall_not_mem, List.map_eq_nil_iff]
  refine ⟨?_, ?_, ?_, rfl⟩
  · intro other relisted hother hperm
    rw [load_eq_ofDirectory hother, ofDirectory_of_perm hentries hnone hperm, hload]
  · intro hcase
    have hperm := sorted_perm (listed dir entries)
    refine ⟨sorted (listed dir entries), ?_, ?_, ?_, ?_⟩
    · rw [hload, if_neg fun h => hnil.1 h hcase]
    · exact pairwise_sorted (map_name_sublist_names.nodup hentries.nodup)
    · intro name
      rw [(hperm.map Case.name).mem_iff, mem_map_name_iff hentries hnone]
    · intro case hmem
      obtain ⟨entry, hentry, hof⟩ := mem_listed_iff.1 (hperm.mem_iff.1 hmem)
      exact isOf_of_ofEntry_eq htree hdir hentry hof
  · rw [hload, ← hnil]
    split_ifs with h <;> simp [h]

end Case

/-- Two cases, listed against the order of their names, between entries that hold none. -/
def mixedListing : List (String × Entry) :=
  [ ("loops", .directory
      [("case.yaml", .file "class: success\n"), ("program.json", .directory [])]),
    ("case.yaml", .file "class: success\n"),
    ("drafts", .directory [("program.json", .file "[]")]),
    ("loop", .directory
      [("program.json", .file "[]"),
        ("case.yaml", .file "class: transpile_error\nglobal_scope: true\n")]) ]

/-- The tree with a listing of `programs`. -/
def programsTree (listing : List (String × Entry)) : Entry :=
  .directory [("programs", .directory listing)]

theorem isTree_mixedListing : (programsTree mixedListing).IsTree := by
  simp only [programsTree, mixedListing, Entry.isTree_directory_iff, List.forall_mem_cons,
    Entry.IsTree.file, List.not_mem_nil, false_imp_iff, implies_true, and_true, true_and]
  decide

theorem noneFaulty_mixedListing : NoneFaulty mixedListing := by
  intro name files hmem hcase
  simp only [mixedListing, List.mem_cons, Prod.mk.injEq, Entry.directory.injEq, reduceCtorEq,
    and_false, List.not_mem_nil, or_false, false_or] at hmem
  obtain ⟨-, rfl⟩ | ⟨-, rfl⟩ | ⟨-, rfl⟩ := hmem
  · exact ⟨by decide, _, ⟨.success, false, none, {}⟩, List.mem_cons_self, by decide +kernel⟩
  · exact absurd hcase (by decide)
  · exact ⟨by decide, _, ⟨.fault, true, none, {}⟩,
      List.mem_cons_of_mem _ List.mem_cons_self, by decide +kernel⟩

theorem load_mixedListing :
    (programsTree mixedListing).IsTree ∧
      (programsTree mixedListing).find? "programs" = some (.directory mixedListing) ∧
      NoneFaulty mixedListing ∧
      Case.load (programsTree mixedListing.reverse) "programs" =
        Case.load (programsTree mixedListing) "programs" ∧
      ∃ cases, Case.load (programsTree mixedListing) "programs" = .ok cases ∧
        cases.Pairwise (fun a b => a.name < b.name) ∧
        (∀ name, name ∈ cases.map Case.name ↔ HasCase mixedListing name) ∧
        ∀ case ∈ cases, case.IsOf (programsTree mixedListing) "programs" := by
  have hfind : ∀ listing, (programsTree listing).find? "programs" = some (.directory listing) := by
    intro listing
    rw [programsTree, Entry.find?_name (by decide), List.lookup_cons_self]
  have hcase : HasCase mixedListing "loops" := ⟨_, List.mem_cons_self, by decide⟩
  have hload := Case.load_of_noneFaulty isTree_mixedListing (hfind _) noneFaulty_mixedListing
  exact ⟨isTree_mixedListing, hfind _, noneFaulty_mixedListing,
    hload.1 _ _ (hfind _) (List.reverse_perm _), hload.2.1 ⟨"loops", hcase⟩⟩

end LuaBackend.Fixture
