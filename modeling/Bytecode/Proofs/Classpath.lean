/-
  Loading a directory depends on its class files alone.

  A directory is listed in some order, and may hold other things than class files.  The names of its
  entries are different, so sorting the class files by name leaves nothing of that order, and
  loading is the same for any two listings that have the same class files.

  * `Classpath.loadFiles_eq_ok_iff`: loading files succeeds if all of them are read, and the classes
    in them can be put into a table.
-/
import Mathlib.Data.List.Nodup
import Mathlib.Data.Set.List
import Bytecode.Classpath
import Bytecode.Proofs.Machine.Tables

namespace Bytecode

namespace DirEntry

/-- The entry is a regular file whose extension is `class`. -/
structure IsClassFile (e : DirEntry) : Prop where
  extension : ∃ stem, stem ≠ "" ∧ e.name = stem ++ ".class"
  regular : e.contents? ≠ none

/-- The entry holds a class file, of the class `c` whose name is `name`. -/
def Defines (e : DirEntry) (name : String) (c : ClassFile) : Prop :=
  ∃ octets, e.contents? = some octets ∧ ClassFile.parse octets = .ok c ∧ c.name = .ok name

theorem defines_iff {e : DirEntry} {octets : Octets} {name name' : String}
    {c c' : ClassFile} (h : e.contents? = some octets) (hparse : ClassFile.parse octets = .ok c)
    (hname : c.name = .ok name) : e.Defines name' c' ↔ name' = name ∧ c' = c := by
  constructor
  · rintro ⟨octets', h', hparse', hname'⟩
    obtain rfl := Option.some.inj (h.symm.trans h')
    obtain rfl := Except.ok.inj (hparse.symm.trans hparse')
    exact ⟨Except.ok.inj (hname'.symm.trans hname), rfl⟩
  · rintro ⟨rfl, rfl⟩
    exact ⟨octets, h, hparse, hname⟩

def file? (e : DirEntry) : Option (String × Octets) :=
  if Classpath.isClassName e.name then e.contents?.map (e.name, ·) else none

end DirEntry

namespace Classpath

/-! ## The files of a listing -/

theorem isClassName_iff {name : String} :
    isClassName name = true ↔ ∃ stem, stem ≠ "" ∧ name = stem ++ ".class" := by
  unfold isClassName
  rw [String.endsWith_eq_endsWith_toSlice, Bool.and_eq_true, String.Slice.endsWith_string_iff,
    String.copy_toSlice, decide_eq_true_eq]
  constructor
  · rintro ⟨⟨stem, hstem⟩, hne⟩
    have hname : name = String.ofList stem ++ ".class" := by
      rw [← String.toList_inj, String.toList_append, String.toList_ofList, hstem]
    refine ⟨String.ofList stem, fun hempty => hne ?_, hname⟩
    rw [hname, hempty, String.empty_append]
  · rintro ⟨stem, hstem, rfl⟩
    refine ⟨⟨stem.toList, String.toList_append.symm⟩, fun heq => hstem ?_⟩
    have hlength := congrArg String.length heq
    rw [String.length_append] at hlength
    exact String.length_eq_zero_iff.1 (Nat.add_eq_right.1 hlength)

instance (e : DirEntry) : Decidable e.IsClassFile :=
  decidable_of_iff (isClassName e.name = true ∧ e.contents? ≠ none)
    ⟨fun h => ⟨isClassName_iff.1 h.1, h.2⟩, fun h => ⟨isClassName_iff.2 h.extension, h.regular⟩⟩

theorem file?_eq_some_iff {e : DirEntry} {file : String × Octets} :
    e.file? = some file ↔ e.IsClassFile ∧ e.name = file.1 ∧ e.contents? = some file.2 := by
  obtain ⟨name, octets⟩ := file
  unfold DirEntry.file?
  rw [Option.ite_none_right_eq_some, isClassName_iff, Option.map_eq_some_iff]
  constructor
  · rintro ⟨hextension, bs, hbs, heq⟩
    obtain ⟨rfl, rfl⟩ := Prod.mk.inj heq
    exact ⟨⟨hextension, by simp [hbs]⟩, rfl, hbs⟩
  · rintro ⟨⟨hextension, -⟩, rfl, hoctets⟩
    exact ⟨hextension, octets, hoctets, rfl⟩

variable {entries entries' : List DirEntry}

theorem classFiles_perm (entries : List DirEntry) :
    (classFiles entries).Perm (entries.filterMap DirEntry.file?) :=
  List.mergeSort_perm _ _

theorem mem_classFiles {file : String × Octets} :
    file ∈ classFiles entries ↔
      ∃ e ∈ entries, e.IsClassFile ∧ e.name = file.1 ∧ e.contents? = some file.2 := by
  rw [(classFiles_perm entries).mem_iff, List.mem_filterMap]
  simp only [file?_eq_some_iff]

theorem exists_file {e : DirEntry} (he : e ∈ entries) (h : e.IsClassFile) :
    ∃ file ∈ classFiles entries, e.name = file.1 ∧ e.contents? = some file.2 := by
  obtain ⟨octets, hoctets⟩ := Option.ne_none_iff_exists'.1 h.regular
  exact ⟨(e.name, octets), mem_classFiles.2 ⟨e, he, h, rfl, hoctets⟩, rfl, hoctets⟩

theorem nodup_classFiles (h : (entries.map DirEntry.name).Nodup) :
    ((classFiles entries).map Prod.fst).Nodup := by
  rw [((classFiles_perm entries).map Prod.fst).nodup_iff]
  refine List.Nodup.sublist ?_ h
  induction entries with
  | nil => exact .slnil
  | cons e entries ih =>
    have ih := ih (List.nodup_cons.1 h).2
    cases hfile : e.file? with
    | none =>
      rw [List.filterMap_cons_none hfile]
      exact ih.cons _
    | some file =>
      rw [List.filterMap_cons_some hfile, List.map_cons, List.map_cons,
        (file?_eq_some_iff.1 hfile).2.1]
      exact ih.cons_cons _

theorem sorted_classFiles (entries : List DirEntry) :
    (classFiles entries).Pairwise fun a b => a.1 ≤ b.1 := by
  have hsorted : (classFiles entries).Pairwise fun a b => decide (a.1 ≤ b.1) = true := by
    refine List.pairwise_mergeSort (fun a b c hab hbc => ?_) (fun a b => ?_) _
    · rw [decide_eq_true_eq] at hab hbc ⊢
      exact String.le_trans hab hbc
    · simpa using String.le_total a.1 b.1
  exact hsorted.imp of_decide_eq_true

/-- **The order of a listing and its other entries make no difference** to the files that are read,
    and to their order. -/
theorem classFiles_congr (h : (entries.map DirEntry.name).Nodup)
    (h' : (entries'.map DirEntry.name).Nodup)
    (hsame : ∀ e : DirEntry, e.IsClassFile → (e ∈ entries' ↔ e ∈ entries)) :
    classFiles entries' = classFiles entries := by
  have hnodup := nodup_classFiles h
  have hperm : (classFiles entries').Perm (classFiles entries) := by
    rw [List.perm_ext_iff_of_nodup (List.Nodup.of_map _ (nodup_classFiles h'))
      (List.Nodup.of_map _ hnodup)]
    intro file
    rw [mem_classFiles, mem_classFiles]
    refine exists_congr fun e => ?_
    rw [and_congr_left_iff]
    exact fun hfile => hsame e hfile.1
  -- files of the same name are the same file, so there is one way to sort them
  refine List.Perm.eq_of_pairwise (fun a b ha hb hab hba => ?_) (sorted_classFiles entries')
    (sorted_classFiles entries) hperm
  exact List.inj_on_of_nodup_map hnodup (hperm.mem_iff.1 ha) hb (String.le_antisymm hab hba)

/-! ## Loading -/

theorem loadFiles_eq_ok_iff {dir : String} {t t' : ClassTable} {files : List (String × Octets)} :
    (loadFiles dir t files).1 = .ok t' ↔
      ∃ cs : List ClassFile, files.map (fun file => ClassFile.parse file.2) = cs.map .ok ∧
        (t.insertAll cs).1 = .ok t' := by
  induction files generalizing t with
  | nil => simp [loadFiles, ClassTable.insertAll]
  | cons file files ih =>
    have hloads : (loadFiles dir t (file :: files)).1 =
        (RunError.ofFormat (ClassFile.parse file.2) >>= t.insert) >>=
          fun out => (loadFiles dir out.1 files).1 := by
      rw [loadFiles]
      cases RunError.ofFormat (ClassFile.parse file.2) >>= t.insert <;> rfl
    simp only [hloads, Except.bind_eq_ok_iff, ih, RunError.ofFormat, Except.mapError_eq_ok_iff]
    constructor
    · rintro ⟨out, ⟨c, hparse, hinsert⟩, cs, hcs, hall⟩
      refine ⟨c :: cs, by rw [List.map_cons, List.map_cons, hparse, hcs], ?_⟩
      rw [ClassTable.insertAll_cons, hinsert]
      exact hall
    · rintro ⟨cs, hcs, hall⟩
      obtain ⟨c, cs, rfl, hparse, hrest⟩ := List.map_eq_cons_iff.1 hcs.symm
      rw [ClassTable.insertAll_cons] at hall
      obtain ⟨out, hinsert, hall⟩ := Except.bind_eq_ok_iff.1 hall
      exact ⟨out, ⟨c, hparse.symm, hinsert⟩, cs, hrest.symm, hall⟩

/-- The name that the class in a file has. -/
def nameIn (file : String × Octets) : Except FormatError String :=
  ClassFile.parse file.2 >>= ClassFile.name

theorem nameIn_eq_ok_iff {e : DirEntry} {file : String × Octets} (h : e.contents? = some file.2)
    {name : String} : nameIn file = .ok name ↔ ∃ c, e.Defines name c := by
  simp [nameIn, Except.bind_eq_ok_iff, DirEntry.Defines, h]

/-- Files are loaded exactly if the class in each can be read and has a name, and no two have the
    same. -/
theorem loadFiles_isOk_iff {dir : String} {files : List (String × Octets)} :
    (∃ t, (loadFiles dir .empty files).1 = .ok t) ↔
      (∀ file ∈ files, ∃ name, nameIn file = .ok name) ∧ (files.map nameIn).Nodup := by
  -- once the files are read, their names are those of the classes in them
  have hnames : ∀ {cs : List ClassFile},
      files.map (fun file => ClassFile.parse file.2) = cs.map .ok →
      cs.map ClassFile.name = files.map nameIn := by
    intro cs hcs
    have hbind := congrArg (List.map (· >>= ClassFile.name)) hcs
    rw [List.map_map, List.map_map] at hbind
    exact hbind.symm
  have hresolve : ∀ {cs : List ClassFile},
      files.map (fun file => ClassFile.parse file.2) = cs.map .ok →
      ((∀ c ∈ cs, ∃ name, c.name = .ok name) ↔ ∀ file ∈ files, ∃ name, nameIn file = .ok name) := by
    intro cs hcs
    have hmap := congrArg (fun names => ∀ x ∈ names, ∃ name, x = Except.ok name) (hnames hcs)
    simpa only [List.forall_mem_map] using Iff.of_eq hmap
  simp only [loadFiles_eq_ok_iff]
  constructor
  · rintro ⟨t, cs, hcs, hall⟩
    obtain ⟨hok, hnodup⟩ := ClassTable.ofClasses_isOk_iff.1 ⟨t, hall⟩
    exact ⟨(hresolve hcs).1 hok, hnames hcs ▸ hnodup⟩
  · rintro ⟨hok, hnodup⟩
    have hread : files.map (fun file => ClassFile.parse file.2) ∈ Set.range (List.map .ok) := by
      rw [Set.range_list_map]
      refine List.forall_mem_map.2 fun file hfile => ?_
      obtain ⟨name, hname⟩ := hok file hfile
      obtain ⟨c, hparse, -⟩ := Except.bind_eq_ok_iff.1 hname
      exact ⟨c, hparse.symm⟩
    obtain ⟨cs, hcs⟩ := hread
    obtain ⟨t, ht⟩ := ClassTable.ofClasses_isOk_iff.2
      ⟨(hresolve hcs.symm).2 hok, (hnames hcs.symm).symm ▸ hnodup⟩
    exact ⟨t, cs, hcs.symm, ht⟩

theorem get?_of_loadFiles {dir : String} {t : ClassTable} {files : List (String × Octets)}
    (h : (loadFiles dir .empty files).1 = .ok t) {name : String} {c : ClassFile} :
    t.get? name = some c ↔
      (∃ file ∈ files, ClassFile.parse file.2 = .ok c) ∧ c.name = .ok name := by
  obtain ⟨cs, hcs, hall⟩ := loadFiles_eq_ok_iff.1 h
  have hmem : c ∈ cs ↔ ∃ file ∈ files, ClassFile.parse file.2 = .ok c := by
    rw [← List.mem_map, hcs]
    simp
  rw [ClassTable.get?_eq_some_iff_of_ofClasses hall, hmem]

/-! ## Directories -/

/-- The classes in the files have names exactly if those in the class files of the listing have. -/
theorem resolve_classFiles :
    (∀ file ∈ classFiles entries, ∃ name, nameIn file = .ok name) ↔
      ∀ e ∈ entries, e.IsClassFile → ∃ name c, e.Defines name c := by
  constructor
  · intro h e he hclass
    obtain ⟨file, hfile, -, hoctets⟩ := exists_file he hclass
    obtain ⟨name, hname⟩ := h file hfile
    exact ⟨name, (nameIn_eq_ok_iff hoctets).1 hname⟩
  · intro h file hfile
    obtain ⟨e, he, hclass, -, hoctets⟩ := mem_classFiles.1 hfile
    obtain ⟨name, hdefines⟩ := h e he hclass
    exact ⟨name, (nameIn_eq_ok_iff hoctets).2 hdefines⟩

/-- These names are different exactly if no two class files define a class of the same name. -/
theorem nodup_names_iff (hnames : (entries.map DirEntry.name).Nodup)
    (hok : ∀ e ∈ entries, e.IsClassFile → ∃ name c, e.Defines name c) :
    ((classFiles entries).map nameIn).Nodup ↔
      ∀ e ∈ entries, ∀ e' ∈ entries, e.IsClassFile → e'.IsClassFile →
        ∀ name c c', e.Defines name c → e'.Defines name c' → e = e' := by
  constructor
  · intro hnodup e he e' he' hclass hclass' name c c' hdefines hdefines'
    obtain ⟨file, hfile, hname, hoctets⟩ := exists_file he hclass
    obtain ⟨file', hfile', hname', hoctets'⟩ := exists_file he' hclass'
    have hsame : nameIn file = nameIn file' := by
      rw [(nameIn_eq_ok_iff hoctets).2 ⟨c, hdefines⟩, (nameIn_eq_ok_iff hoctets').2 ⟨c', hdefines'⟩]
    have heq := List.inj_on_of_nodup_map hnodup hfile hfile' hsame
    exact List.inj_on_of_nodup_map hnames he he' (by rw [hname, hname', heq])
  · intro hunique
    refine List.Nodup.map_on (fun file hfile file' hfile' hsame => ?_)
      (List.Nodup.of_map _ (nodup_classFiles hnames))
    obtain ⟨e, he, hclass, hname, hoctets⟩ := mem_classFiles.1 hfile
    obtain ⟨e', he', hclass', hname', hoctets'⟩ := mem_classFiles.1 hfile'
    obtain ⟨name, c, hdefines⟩ := hok e he hclass
    rw [(nameIn_eq_ok_iff hoctets).2 ⟨c, hdefines⟩] at hsame
    obtain ⟨c', hdefines'⟩ := (nameIn_eq_ok_iff hoctets').1 hsame.symm
    obtain rfl := hunique e he e' he' hclass hclass' name c c' hdefines hdefines'
    exact Prod.ext (hname.symm.trans hname') (Option.some.inj (hoctets.symm.trans hoctets'))

/-- A name leads to the class that a class file of the directory defines under it. -/
theorem get?_of_load {dir : String} {t : ClassTable} (h : (load dir (.ok entries)).1 = .ok t)
    {name : String} {c : ClassFile} :
    t.get? name = some c ↔ ∃ e ∈ entries, e.IsClassFile ∧ e.Defines name c := by
  rw [get?_of_loadFiles h]
  constructor
  · rintro ⟨⟨file, hfile, hparse⟩, hname⟩
    obtain ⟨e, he, hclass, -, hoctets⟩ := mem_classFiles.1 hfile
    exact ⟨e, he, hclass, file.2, hoctets, hparse, hname⟩
  · rintro ⟨e, he, hclass, octets, hoctets, hparse, hname⟩
    obtain ⟨file, hfile, -, hcontents⟩ := exists_file he hclass
    obtain rfl := Option.some.inj (hoctets.symm.trans hcontents)
    exact ⟨⟨file, hfile, hparse⟩, hname⟩

/-- **Loading a directory depends on its class files alone.**  Let the entries of a directory have
    different names.  Any other listing with the same class files, be it in another order or with
    other entries that are none, is loaded with the same result, the same error if there is one, and
    the same events in the same order.

    Loading succeeds exactly if every class file can be read and the class in it has a name, and no
    two have the same; then the names in the table are these names, and each leads to its class. -/
theorem load_of_class_files (dir : String) (entries : List DirEntry)
    (hnames : (entries.map DirEntry.name).Nodup) :
    (∀ entries' : List DirEntry, (entries'.map DirEntry.name).Nodup →
      (∀ e : DirEntry, e.IsClassFile → (e ∈ entries' ↔ e ∈ entries)) →
      load dir (.ok entries') = load dir (.ok entries)) ∧
    ((∃ t, (load dir (.ok entries)).1 = .ok t) ↔
      (∀ e ∈ entries, e.IsClassFile → ∃ name c, e.Defines name c) ∧
      ∀ e ∈ entries, ∀ e' ∈ entries, e.IsClassFile → e'.IsClassFile →
        ∀ name c c', e.Defines name c → e'.Defines name c' → e = e') ∧
    ∀ t, (load dir (.ok entries)).1 = .ok t →
      (∀ name, name ∈ t.names ↔ ∃ e ∈ entries, e.IsClassFile ∧ ∃ c, e.Defines name c) ∧
      ∀ name c, t.get? name = some c ↔ ∃ e ∈ entries, e.IsClassFile ∧ e.Defines name c := by
  refine ⟨fun entries' hnames' hsame => ?_, ?_, fun t ht => ?_⟩
  · rw [load, load, classFiles_congr hnames hnames' hsame]
  · rw [load, loadFiles_isOk_iff, resolve_classFiles]
    exact and_congr_right fun hok => nodup_names_iff hnames hok
  · refine ⟨fun name => ?_, fun name c => get?_of_load ht⟩
    rw [ClassTable.mem_names]
    simp only [get?_of_load ht]
    constructor
    · rintro ⟨c, e, he, hclass, hdefines⟩
      exact ⟨e, he, hclass, c, hdefines⟩
    · rintro ⟨e, he, hclass, c, hdefines⟩
      exact ⟨c, e, he, hclass, hdefines⟩

/-- Two listings of the same class files, and one where the second file holds the first class. -/
theorem load_of_class_files_shuffled :
    let file (name : String) (c : ClassFile) : DirEntry := ⟨name, some c.octets⟩
    let a := (Assembly.build "A" [.integer 7]).2
    let b := (Assembly.build "B" []).2
    let listing := [file "B.class" b, ⟨"notes.txt", some [1]⟩, file "A.class" a, ⟨"C.class", none⟩]
    let listing' := [file "A.class" a, ⟨".class", some []⟩, ⟨"notes.txt", none⟩, file "B.class" b]
    load "classes" (.ok listing') = load "classes" (.ok listing) ∧
      (∃ t, (load "classes" (.ok listing)).1 = .ok t ∧ t.get? "A" = some a ∧
        ∀ name, name ∈ t.names ↔ name = "A" ∨ name = "B") ∧
      ¬ ∃ t, (load "classes" (.ok [file "A.class" a, file "B.class" a])).1 = .ok t := by
  intro file a b listing listing'
  have hfiles : ∀ (l : List DirEntry) {e e₁ e₂ : DirEntry},
      (l.filter fun e => e.IsClassFile) = [e₁, e₂] → e.IsClassFile → (e ∈ l ↔ e = e₁ ∨ e = e₂) := by
    intro l e e₁ e₂ hfilter he
    rw [← List.mem_pair, ← hfilter, List.mem_filter, decide_eq_true_eq, and_iff_left he]
  have hmem : ∀ {e}, e.IsClassFile →
      (e ∈ listing ↔ e = file "B.class" b ∨ e = file "A.class" a) :=
    hfiles listing (by decide +kernel)
  have ha : ∀ {stem name c}, (file stem a).Defines name c ↔ name = "A" ∧ c = a :=
    DirEntry.defines_iff rfl (Except.toOption_eq_some_iff.1 (by decide +kernel))
      (Assembly.name_build (by decide) _)
  have hb : ∀ {stem name c}, (file stem b).Defines name c ↔ name = "B" ∧ c = b :=
    DirEntry.defines_iff rfl (Except.toOption_eq_some_iff.1 (by decide +kernel))
      (Assembly.name_build (by decide) _)
  obtain ⟨hsame, hok, htable⟩ := load_of_class_files "classes" listing (by decide)
  refine ⟨hsame listing' (by decide) fun e he => ?_, ?_, ?_⟩
  · have hmem' : e ∈ listing' ↔ e = file "A.class" a ∨ e = file "B.class" b :=
      hfiles listing' (by decide +kernel) he
    rw [hmem he, hmem', or_comm]
  · have hread : ∀ e ∈ listing, e.IsClassFile → ∃ name c, e.Defines name c := by
      intro e he hclass
      obtain rfl | rfl := (hmem hclass).1 he
      · exact ⟨"B", b, hb.2 ⟨rfl, rfl⟩⟩
      · exact ⟨"A", a, ha.2 ⟨rfl, rfl⟩⟩
    have hunique : ∀ e ∈ listing, ∀ e' ∈ listing, e.IsClassFile → e'.IsClassFile →
        ∀ name c c', e.Defines name c → e'.Defines name c' → e = e' := by
      intro e he e' he' hclass hclass' name c c' h h'
      obtain rfl | rfl := (hmem hclass).1 he <;> obtain rfl | rfl := (hmem hclass').1 he'
      · rfl
      · exact absurd ((hb.1 h).1.symm.trans (ha.1 h').1) (by decide)
      · exact absurd ((ha.1 h).1.symm.trans (hb.1 h').1) (by decide)
      · rfl
    obtain ⟨t, ht⟩ := hok.2 ⟨hread, hunique⟩
    obtain ⟨hnames, hget⟩ := htable t ht
    have hclass : (file "A.class" a).IsClassFile ∧ (file "B.class" b).IsClassFile := by
      decide +kernel
    refine ⟨t, ht, (hget "A" a).2 ⟨_, (hmem hclass.1).2 (.inr rfl), hclass.1, ha.2 ⟨rfl, rfl⟩⟩,
      fun name => ?_⟩
    rw [hnames]
    constructor
    · rintro ⟨e, he, hclass, c, h⟩
      obtain rfl | rfl := (hmem hclass).1 he
      · exact .inr (hb.1 h).1
      · exact .inl (ha.1 h).1
    · rintro (rfl | rfl)
      · exact ⟨_, (hmem hclass.1).2 (.inr rfl), hclass.1, a, ha.2 ⟨rfl, rfl⟩⟩
      · exact ⟨_, (hmem hclass.2).2 (.inl rfl), hclass.2, b, hb.2 ⟨rfl, rfl⟩⟩
  · rw [(load_of_class_files "classes" _ (by decide)).2.1]
    rintro ⟨-, hunique⟩
    have heq := hunique (file "A.class" a) (.head _) (file "B.class" a) (.tail _ (.head _))
      (by decide +kernel) (by decide +kernel) "A" a a (ha.2 ⟨rfl, rfl⟩) (ha.2 ⟨rfl, rfl⟩)
    exact absurd (congrArg DirEntry.name heq) (by decide)

end Classpath

end Bytecode
