import Mathlib.Data.List.Lex
import TandemAio.Reasoning.Text
import TandemAio.BuildCache

/-!
# `tandem-compile.rs`: the hash of a source directory

The Python files under a directory, the bytes that are hashed for them, and the directories that
the hash tells apart.
-/

open Reasoning

namespace TandemAio

/-- The name of a file or a directory, in UTF-8. -/
structure FileName where
  chars : List Char
  nonempty : chars ≠ []
  no_nul : '\x00' ∉ chars
  no_slash : '/' ∉ chars
deriving DecidableEq

/-- What `read_dir` lists of a directory, in its order. -/
inductive SourceDir
  | empty
  | file (name : FileName) (contents : List UInt8) (rest : SourceDir)
  | dir (name : FileName) (entries : SourceDir) (rest : SourceDir)

/-- A Python file: its path under the directory, and its bytes. -/
structure SourceFile where
  path : List FileName
  contents : List UInt8
deriving DecidableEq

namespace SourceDir

def names : SourceDir → List FileName
  | empty => []
  | file name _ rest => name :: rest.names
  | dir name _ rest => name :: rest.names

/-- No directory lists a name twice. -/
def Distinct : SourceDir → Prop
  | empty => True
  | file name _ rest => name ∉ rest.names ∧ rest.Distinct
  | dir name entries rest => name ∉ rest.names ∧ entries.Distinct ∧ rest.Distinct

/-- The directories that `collect_python_files` does not enter. -/
def skipped (name : FileName) : Bool :=
  name.chars = "__pycache__".toList || name.chars = ".git".toList ||
    ".egg-info".toList.isSuffixOf name.chars

/-- Whether the extension is `py`; a name that starts with its only dot has none. -/
def isPython (name : FileName) : Bool :=
  ".py".toList.isSuffixOf name.chars && decide (name.chars ≠ ".py".toList)

/-- `collect_python_files` -/
def collectPythonFiles : SourceDir → List SourceFile
  | empty => []
  | file name contents rest =>
    if isPython name then ⟨[name], contents⟩ :: rest.collectPythonFiles
    else rest.collectPythonFiles
  | dir name entries rest =>
    if skipped name then rest.collectPythonFiles
    else
      (entries.collectPythonFiles.map fun f ↦ { f with path := name :: f.path }) ++
        rest.collectPythonFiles

end SourceDir

/-- What paths are compared by: their names, one after another, as bytes. -/
def SourceFile.key (f : SourceFile) : List (List Nat) :=
  f.path.map fun name ↦ (utf8Chars name.chars).map UInt8.toNat

/-- The files in the order in which they are hashed. -/
def SourceDir.files (d : SourceDir) : List SourceFile :=
  d.collectPythonFiles.mergeSort fun f g ↦ f.key ≤ g.key

/-- `relative.to_string_lossy()`, of a path in UTF-8. -/
def SourceFile.relative (f : SourceFile) : List UInt8 :=
  utf8Chars (['/'].intercalate (f.path.map FileName.chars))

/-- The bytes that `hash_source_dir` hashes. -/
def sourceMaterial (files : List SourceFile) : List UInt8 :=
  files.flatMap fun f ↦ f.relative ++ 0 :: (f.contents ++ [0])

/-- `hash_source_dir` -/
def hashSourceDir [Sha256] (d : SourceDir) : String := hashBytes (sourceMaterial d.files)

/-- A directory of a file system. -/
abbrev SourceTree := {d : SourceDir // d.Distinct}

/-- The Python files of a directory, with their paths and contents. -/
def SourceTree.sources (d : SourceTree) : Set SourceFile := {f | f ∈ d.val.collectPythonFiles}

/-- The path of a file and what lies between the zero bytes of its contents. -/
def SourceFile.pieces (f : SourceFile) : List (List UInt8) := f.relative :: f.contents.splitOn 0

/-! ## Paths -/

section Paths

theorem utf8Chars_inj {cs ds : List Char} : utf8Chars cs = utf8Chars ds ↔ cs = ds := by
  constructor
  · intro h
    rw [← decodeFrom_utf8Chars cs, h, decodeFrom_utf8Chars]
  · intro h
    rw [h]

theorem FileName.chars_injective : Function.Injective FileName.chars := by
  rintro ⟨cs, _, _, _⟩ ⟨ds, _, _, _⟩ h
  have hchars : cs = ds := h
  subst hchars
  rfl

theorem SourceFile.key_inj {f g : SourceFile} : f.key = g.key ↔ f.path = g.path := by
  have hinj : Function.Injective
      fun name : FileName ↦ (utf8Chars name.chars).map UInt8.toNat := by
    intro a b h
    have hbytes := List.map_injective_iff.mpr (fun x y ↦ UInt8.toNat_inj.mp) h
    exact FileName.chars_injective (utf8Chars_inj.mp hbytes)
  exact (List.map_injective_iff.mpr hinj).eq_iff

theorem SourceFile.relative_inj {f g : SourceFile} (hf : f.path ≠ []) (hg : g.path ≠ [])
    (h : f.relative = g.relative) : f.path = g.path := by
  have hjoined := utf8Chars_inj.mp h
  have hsplit : ∀ path : List FileName, path ≠ [] →
      (['/'].intercalate (path.map FileName.chars)).splitOn '/' = path.map FileName.chars := by
    intro path hpath
    apply List.splitOn_intercalate
    · intro cs hcs
      obtain ⟨name, -, rfl⟩ := List.mem_map.mp hcs
      exact name.no_slash
    · rwa [ne_eq, List.map_eq_nil_iff]
  have hnames : f.path.map FileName.chars = g.path.map FileName.chars := by
    rw [← hsplit f.path hf, hjoined, hsplit g.path hg]
  exact List.map_injective_iff.mpr FileName.chars_injective hnames

theorem SourceFile.relative_no_nul (f : SourceFile) : (0 : UInt8) ∉ f.relative := by
  intro h
  have hchar := mem_decodeFrom (by decide) h
  unfold SourceFile.relative at hchar
  rw [decodeFrom_utf8Chars] at hchar
  have hmem : ∀ path : List FileName,
      '\x00' ∉ ['/'].intercalate (path.map FileName.chars) := by
    intro path hnul
    have hsep : '\x00' ∈ ['/'] ∨ ∃ cs ∈ path.map FileName.chars, '\x00' ∈ cs := by
      clear h hchar
      induction path with
      | nil => simp at hnul
      | cons name path ih =>
        cases path with
        | nil =>
          right
          exact ⟨name.chars, by simp, by simpa using hnul⟩
        | cons next path =>
          rw [List.map_cons, List.map_cons, List.intercalate_cons_cons] at hnul
          rcases List.mem_append.mp hnul with hfirst | hrest
          · rcases List.mem_append.mp hfirst with hname | hslash
            · exact .inr ⟨name.chars, by simp, hname⟩
            · exact .inl hslash
          · rcases ih hrest with hslash | ⟨cs, hcs, hin⟩
            · exact .inl hslash
            · exact .inr ⟨cs, List.mem_cons_of_mem _ hcs, hin⟩
    rcases hsep with hslash | ⟨cs, hcs, hin⟩
    · exact absurd hslash (by decide)
    · obtain ⟨name, -, rfl⟩ := List.mem_map.mp hcs
      exact name.no_nul hin
  exact hmem f.path hchar

end Paths

/-! ## The order of the files -/

namespace SourceDir

/-- The path of a collected file starts with a name of the directory. -/
theorem path_of_mem {d : SourceDir} {f : SourceFile} (h : f ∈ d.collectPythonFiles) :
    ∃ name path, f.path = name :: path ∧ name ∈ d.names := by
  induction d generalizing f with
  | empty => cases h
  | file name contents rest ih =>
    rw [collectPythonFiles] at h
    have hrest : f ∈ rest.collectPythonFiles →
        ∃ name' path, f.path = name' :: path ∧ name' ∈ (file name contents rest).names := by
      intro h'
      obtain ⟨name', path, hpath, hname⟩ := ih h'
      exact ⟨name', path, hpath, List.mem_cons_of_mem _ hname⟩
    split at h
    · rcases List.mem_cons.mp h with rfl | h
      · exact ⟨name, [], rfl, List.mem_cons_self⟩
      · exact hrest h
    · exact hrest h
  | dir name entries rest _ ih =>
    rw [collectPythonFiles] at h
    have hrest : f ∈ rest.collectPythonFiles →
        ∃ name' path, f.path = name' :: path ∧ name' ∈ (dir name entries rest).names := by
      intro h'
      obtain ⟨name', path, hpath, hname⟩ := ih h'
      exact ⟨name', path, hpath, List.mem_cons_of_mem _ hname⟩
    split at h
    · exact hrest h
    · rcases List.mem_append.mp h with h | h
      · obtain ⟨g, -, rfl⟩ := List.mem_map.mp h
        exact ⟨name, g.path, rfl, List.mem_cons_self⟩
      · exact hrest h

theorem nodup_paths {d : SourceDir} (h : d.Distinct) :
    (d.collectPythonFiles.map SourceFile.path).Nodup := by
  induction d with
  | empty => exact List.nodup_nil
  | file name contents rest ih =>
    obtain ⟨hname, hrest⟩ := h
    rw [collectPythonFiles]
    split
    · rw [List.map_cons, List.nodup_cons]
      refine ⟨?_, ih hrest⟩
      intro hmem
      obtain ⟨f, hf, hpath⟩ := List.mem_map.mp hmem
      obtain ⟨name', path, hpath', hname'⟩ := path_of_mem hf
      have heq : name' :: path = [name] := hpath'.symm.trans hpath
      rw [(List.cons.inj heq).1] at hname'
      exact hname hname'
    · exact ih hrest
  | dir name entries rest ihentries ih =>
    obtain ⟨hname, hentries, hrest⟩ := h
    rw [collectPythonFiles]
    split
    · exact ih hrest
    · rw [List.map_append, List.map_map]
      have hcomp : SourceFile.path ∘ (fun f : SourceFile ↦ { f with path := name :: f.path }) =
          List.cons name ∘ SourceFile.path := rfl
      rw [hcomp, ← List.map_map]
      apply List.Nodup.append
      · exact (ihentries hentries).map List.cons_injective
      · exact ih hrest
      · intro path hsub hmem
        obtain ⟨path', -, rfl⟩ := List.mem_map.mp hsub
        obtain ⟨f, hf, hpath⟩ := List.mem_map.mp hmem
        obtain ⟨name', path'', hpath', hname'⟩ := path_of_mem hf
        have heq : name' :: path'' = name :: path' := hpath'.symm.trans hpath
        rw [(List.cons.inj heq).1] at hname'
        exact hname hname'

theorem mem_files {d : SourceDir} {f : SourceFile} : f ∈ d.files ↔ f ∈ d.collectPythonFiles :=
  List.mem_mergeSort

end SourceDir

namespace SourceTree

theorem eq_of_path {d : SourceTree} {f g : SourceFile} (hf : f ∈ d.sources) (hg : g ∈ d.sources)
    (h : f.path = g.path) : f = g :=
  List.inj_on_of_nodup_map (SourceDir.nodup_paths d.property) hf hg h

/-- The order of the files follows from what the files are. -/
theorem files_eq_iff {d e : SourceTree} : d.val.files = e.val.files ↔ d.sources = e.sources := by
  constructor
  · intro h
    ext f
    show f ∈ d.val.collectPythonFiles ↔ f ∈ e.val.collectPythonFiles
    rw [← SourceDir.mem_files, h, SourceDir.mem_files]
  · intro h
    have hmem : ∀ f, f ∈ d.val.collectPythonFiles ↔ f ∈ e.val.collectPythonFiles :=
      fun f ↦ Set.ext_iff.mp h f
    have htrans : ∀ f g k : SourceFile, decide (f.key ≤ g.key) = true →
        decide (g.key ≤ k.key) = true → decide (f.key ≤ k.key) = true := by
      intro f g k hfg hgk
      rw [decide_eq_true_eq] at hfg hgk ⊢
      exact hfg.trans hgk
    have htotal : ∀ f g : SourceFile,
        (decide (f.key ≤ g.key) || decide (g.key ≤ f.key)) = true := by
      intro f g
      rw [Bool.or_eq_true, decide_eq_true_eq, decide_eq_true_eq]
      exact le_total _ _
    have hperm : d.val.collectPythonFiles.Perm e.val.collectPythonFiles :=
      (List.perm_ext_iff_of_nodup (SourceDir.nodup_paths d.property).of_map
        (SourceDir.nodup_paths e.property).of_map).mpr hmem
    apply @List.Perm.eq_of_pairwise _ fun f g : SourceFile ↦ decide (f.key ≤ g.key) = true
    · intro f g hf hg hfg hgf
      rw [decide_eq_true_eq] at hfg hgf
      have hf' : f ∈ d.sources := SourceDir.mem_files.mp hf
      have hg' : g ∈ d.sources := (hmem g).mpr (SourceDir.mem_files.mp hg)
      exact eq_of_path hf' hg' (SourceFile.key_inj.mp (le_antisymm hfg hgf))
    · exact List.pairwise_mergeSort htrans htotal _
    · exact List.pairwise_mergeSort htrans htotal _
    · exact (List.mergeSort_perm _ _).trans (hperm.trans (List.mergeSort_perm _ _).symm)

end SourceTree

/-! ## What is hashed -/

section Material

/-- The number of zero bytes in the contents. -/
def SourceFile.nuls (f : SourceFile) : Nat := f.contents.count 0

theorem flatMap_closed (pieces : List (List UInt8)) :
    pieces.flatMap (· ++ [0]) = [0].intercalate (pieces ++ [[]]) := by
  induction pieces with
  | nil => rfl
  | cons piece pieces ih =>
    rw [List.flatMap_cons, ih, List.cons_append,
      List.intercalate_cons_of_ne_nil (List.append_ne_nil_of_right_ne_nil _ (by simp))]

/-- What is hashed closes each piece with a zero byte. -/
theorem sourceMaterial_eq (files : List SourceFile) :
    sourceMaterial files = [0].intercalate (files.flatMap SourceFile.pieces ++ [[]]) := by
  rw [← flatMap_closed]
  unfold sourceMaterial
  rw [List.flatMap_assoc]
  apply List.flatMap_congr
  intro f _
  have hcontents : (f.contents.splitOn 0).flatMap (· ++ [0]) = f.contents ++ [0] := by
    have hclosed : f.contents.splitOn 0 ++ [[]] = (f.contents ++ [0]).splitOn 0 := by
      rw [List.splitOn_append_cons_self, List.splitOn_nil]
    rw [flatMap_closed, hclosed, List.intercalate_splitOn]
  unfold SourceFile.pieces
  rw [List.flatMap_cons, hcontents, List.append_assoc]
  rfl

theorem not_mem_of_mem_splitOn {bytes piece : List UInt8} (h : piece ∈ bytes.splitOn 0) :
    (0 : UInt8) ∉ piece := by
  induction bytes generalizing piece with
  | nil =>
    rw [List.splitOn_nil] at h
    rw [List.mem_singleton.mp h]
    simp
  | cons b bytes ih =>
    rw [List.splitOn_cons_eq_if_modifyHead] at h
    split at h
    · rcases List.mem_cons.mp h with rfl | h
      · simp
      · exact ih h
    · rename_i hb
      cases hsplit : bytes.splitOn 0 with
      | nil => exact absurd hsplit (List.splitOn_ne_nil 0 bytes)
      | cons first others =>
        rw [hsplit] at h ih
        rcases List.mem_cons.mp h with rfl | h
        · rw [List.mem_cons, not_or]
          have hne : b ≠ 0 := by simpa using hb
          exact ⟨hne.symm, ih List.mem_cons_self⟩
        · exact ih (List.mem_cons_of_mem _ h)

theorem length_splitOn (bytes : List UInt8) : (bytes.splitOn 0).length = bytes.count 0 + 1 := by
  induction bytes with
  | nil => rfl
  | cons b bytes ih =>
    rw [List.splitOn_cons_eq_if_modifyHead, List.count_cons]
    split
    · rw [List.length_cons, ih]
    · rw [List.length_modifyHead, ih]

/-- The pieces are what is hashed. -/
theorem sourceMaterial_inj {files files' : List SourceFile} :
    sourceMaterial files = sourceMaterial files' ↔
      files.flatMap SourceFile.pieces = files'.flatMap SourceFile.pieces := by
  constructor
  · intro h
    have hsplit : ∀ files : List SourceFile,
        (sourceMaterial files).splitOn 0 = files.flatMap SourceFile.pieces ++ [[]] := by
      intro files
      rw [sourceMaterial_eq]
      apply List.splitOn_intercalate
      · intro piece hpiece
        rcases List.mem_append.mp hpiece with hpiece | hpiece
        · obtain ⟨f, -, hpiece⟩ := List.mem_flatMap.mp hpiece
          rcases List.mem_cons.mp hpiece with rfl | hpiece
          · exact f.relative_no_nul
          · exact not_mem_of_mem_splitOn hpiece
        · rw [List.mem_singleton.mp hpiece]
          simp
      · simp
    have hpieces := congrArg (List.splitOn 0) h
    rw [hsplit, hsplit] at hpieces
    exact List.append_cancel_right hpieces
  · intro h
    rw [sourceMaterial_eq, sourceMaterial_eq, h]

/-- The pieces and their numbers give the files. -/
theorem files_of_pieces {files files' : List SourceFile}
    (hpath : ∀ f ∈ files, f.path ≠ []) (hpath' : ∀ f ∈ files', f.path ≠ [])
    (hpieces : files.flatMap SourceFile.pieces = files'.flatMap SourceFile.pieces)
    (hnuls : files.map SourceFile.nuls = files'.map SourceFile.nuls) : files = files' := by
  induction files generalizing files' with
  | nil =>
    rw [List.map_nil] at hnuls
    exact (List.map_eq_nil_iff.mp hnuls.symm).symm
  | cons f files ih =>
    cases files' with
    | nil => cases hnuls
    | cons f' files' =>
      rw [List.map_cons, List.map_cons, List.cons.injEq] at hnuls
      rw [List.flatMap_cons, List.flatMap_cons] at hpieces
      have hlength : f.pieces.length = f'.pieces.length := by
        unfold SourceFile.pieces
        rw [List.length_cons, List.length_cons, length_splitOn, length_splitOn]
        have hcount : f.contents.count 0 = f'.contents.count 0 := hnuls.1
        rw [hcount]
      obtain ⟨hfirst, hrest⟩ := List.append_inj hpieces hlength
      have hfiles := ih (fun g hg ↦ hpath g (List.mem_cons_of_mem _ hg))
        (fun g hg ↦ hpath' g (List.mem_cons_of_mem _ hg)) hrest hnuls.2
      obtain ⟨hrelative, hcontents⟩ := List.cons.inj hfirst
      have hp := SourceFile.relative_inj (hpath f List.mem_cons_self)
        (hpath' f' List.mem_cons_self) hrelative
      have hc : f.contents = f'.contents := by
        rw [← @List.intercalate_splitOn _ f.contents _ _ 0, hcontents, List.intercalate_splitOn]
      have hf : f = f' := by
        obtain ⟨path, contents⟩ := f
        obtain ⟨path', contents'⟩ := f'
        have hp' : path = path' := hp
        have hc' : contents = contents' := hc
        rw [hp', hc']
      rw [hf, hfiles]

end Material

/-! ## The directories that the hash tells apart -/

theorem SourceTree.path_ne_nil (d : SourceTree) : ∀ f ∈ d.val.files, f.path ≠ [] := by
  intro f hf
  obtain ⟨name, path, hpath, -⟩ := SourceDir.path_of_mem (SourceDir.mem_files.mp hf)
  rw [hpath]
  exact List.cons_ne_nil _ _

section Hash

variable [Sha256]

theorem hashSourceDir_eq (hash : Function.Injective Sha256.hexdigest) {d e : SourceTree} :
    hashSourceDir d.val = hashSourceDir e.val ↔
      d.val.files.flatMap SourceFile.pieces = e.val.files.flatMap SourceFile.pieces := by
  unfold hashSourceDir hashBytes
  rw [hash.eq_iff, sourceMaterial_inj]

/-- The hash tells two directories apart unless the same pieces are parted among other files. -/
theorem hashSourceDir_determines_iff (hash : Function.Injective Sha256.hexdigest)
    (d e : SourceTree) :
    (hashSourceDir d.val = hashSourceDir e.val → d.sources = e.sources) ↔
      (d.val.files.flatMap SourceFile.pieces = e.val.files.flatMap SourceFile.pieces →
        d.val.files.map SourceFile.nuls = e.val.files.map SourceFile.nuls) := by
  rw [hashSourceDir_eq hash, ← SourceTree.files_eq_iff]
  constructor
  · intro h hpieces
    rw [h hpieces]
  · intro h hpieces
    exact files_of_pieces d.path_ne_nil e.path_ne_nil hpieces (h hpieces)

/-- Files without zero bytes are told apart. -/
theorem sources_of_no_nul (hash : Function.Injective Sha256.hexdigest) {d e : SourceTree}
    (hd : ∀ f ∈ d.sources, (0 : UInt8) ∉ f.contents)
    (he : ∀ f ∈ e.sources, (0 : UInt8) ∉ f.contents)
    (h : hashSourceDir d.val = hashSourceDir e.val) : d.sources = e.sources := by
  apply (hashSourceDir_determines_iff hash d e).mpr _ h
  intro hpieces
  have hnuls : ∀ t : SourceTree, (∀ f ∈ t.sources, (0 : UInt8) ∉ f.contents) →
      t.val.files.map SourceFile.nuls = List.replicate t.val.files.length 0 ∧
        (t.val.files.flatMap SourceFile.pieces).length = 2 * t.val.files.length := by
    intro t ht
    have hzero : ∀ f ∈ t.val.files, f.nuls = 0 :=
      fun f hf ↦ List.count_eq_zero.mpr (ht f (SourceDir.mem_files.mp hf))
    constructor
    · rw [List.map_congr_left hzero, List.map_const']
    · have htwo : ∀ f ∈ t.val.files, f.pieces.length = 2 := by
        intro f hf
        have hcount : f.contents.count 0 = 0 := hzero f hf
        unfold SourceFile.pieces
        rw [List.length_cons, length_splitOn, hcount]
      rw [List.length_flatMap, List.map_congr_left htwo, List.map_const', List.sum_replicate_nat,
        Nat.mul_comm]
  obtain ⟨hnd, hld⟩ := hnuls d hd
  obtain ⟨hne, hle⟩ := hnuls e he
  rw [hpieces, hle] at hld
  have hlength : d.val.files.length = e.val.files.length := by omega
  rw [hnd, hne, hlength]

end Hash

/-! ## Two directories with one hash -/

namespace SourceSample

def aPy : FileName where
  chars := "a.py".toList
  nonempty := by decide
  no_nul := by decide
  no_slash := by decide

def bPy : FileName where
  chars := "b.py".toList
  nonempty := by decide
  no_nul := by decide
  no_slash := by decide

/-- Two files. -/
def twoSources : SourceTree :=
  ⟨.file aPy [120] (.file bPy [121] .empty), by
    simp [SourceDir.names, SourceDir.Distinct, aPy, bPy]⟩

/-- One file that goes on with the path and the bytes of another. -/
def oneSource : SourceTree :=
  ⟨.file aPy ([120, 0] ++ utf8Chars bPy.chars ++ [0, 121]) .empty, by
    simp [SourceDir.names, SourceDir.Distinct]⟩

end SourceSample

open CacheSample SourceSample in
/-- Two files have the hash of one file with both of them in it. -/
theorem one_hash_for_two : Function.Injective Sha256.hexdigest ∧
    hashSourceDir twoSources.val = hashSourceDir oneSource.val ∧
      twoSources.sources ≠ oneSource.sources := by
  -- the files are listed in their order
  have htwo : twoSources.val.files = [⟨[aPy], [120]⟩, ⟨[bPy], [121]⟩] :=
    List.mergeSort_of_pairwise (by decide)
  have hone : oneSource.val.files = [⟨[aPy], [120, 0] ++ utf8Chars bPy.chars ++ [0, 121]⟩] :=
    List.mergeSort_of_pairwise (by decide)
  have hmaterial : sourceMaterial twoSources.val.files = sourceMaterial oneSource.val.files := by
    rw [htwo, hone]
    decide
  refine ⟨hexSha_injective, ?_, ?_⟩
  · unfold hashSourceDir
    rw [hmaterial]
  · intro h
    have hfiles := SourceTree.files_eq_iff.mpr h
    rw [htwo, hone] at hfiles
    exact absurd hfiles (by decide)

open CacheSample SourceSample in
/-- The pieces of the two are parted in two ways. -/
theorem determines_iff_two_sources :
    Function.Injective Sha256.hexdigest ∧
      ((hashSourceDir twoSources.val = hashSourceDir oneSource.val →
          twoSources.sources = oneSource.sources) ↔
        (twoSources.val.files.flatMap SourceFile.pieces =
            oneSource.val.files.flatMap SourceFile.pieces →
          twoSources.val.files.map SourceFile.nuls = oneSource.val.files.map SourceFile.nuls)) :=
  ⟨hexSha_injective, hashSourceDir_determines_iff hexSha_injective twoSources oneSource⟩

end TandemAio
