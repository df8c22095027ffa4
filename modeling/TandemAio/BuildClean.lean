import TandemAio.ProjectConfig
import TandemAio.Reasoning.FileTree

/-!
# `build.py`: what building and cleaning remove

The output directory of a project on a tree of files, through any sequence of builds, cleans and
changes of the user's own.  No file is protected from removal.
-/

open Reasoning

namespace TandemAio

/-! ## Loading -/

/-- A path from the root, by its parts. -/
abbrev FsPath := List PyStr

/-- A file holds what Python reads in it as text; `none` when it is not UTF-8. -/
abbrev ProjectTree := FileTree PyStr (Option PyStr)

/-- The parts of a path, as `pathlib` keeps them. -/
def pathParts (value : PyStr) : List (PathPart PyStr) :=
  (value.splitOn (charPoint '/')).filterMap fun part ↦
    if part = [] ∨ part = points "." then none
    else if part = points ".." then some .up
    else some (.name part)

/-- `(root / value).resolve()`; `none` is the `ValueError` of a null byte. -/
def resolvePath (root : FsPath) (value : PyStr) : Option FsPath :=
  if charPoint '\x00' ∈ value then none
  else if value.head? = some (charPoint '/') then some (walkPath [] (pathParts value))
  else some (walkPath root (pathParts value))

/-- The paths of a `ProjectConfig`. -/
structure BuildConfig where
  projectRoot : FsPath
  entryPath : FsPath
  outputDir : FsPath
deriving DecidableEq

/-- Whether `resolve_sdk_path` raises nothing. -/
def sdkPathAccepted (tree : ProjectTree) (root : FsPath) (project : TomlTable) : Bool :=
  match [project.lookup (points "sdk_path"), project.lookup (points "sdk_python_path")].reduceOption
    with
  | [] => true
  | .str text :: _ =>
    match resolvePath root (PyStr.strip text) with
    | none => false
    | some path => PyStr.strip text ≠ [] && (tree.node path).isSome
  | _ :: _ => false

/-- `load_project_config`, for a path that is resolved; `none` is an error. -/
def loadProjectConfig [TomlValues] (tree : ProjectTree) (config : FsPath) : Option BuildConfig := do
  let some (.file (some text)) := tree.node config | none
  let data ← parseProjectConfig text
  let fields ← (readProjectFields data).toOption
  let project ← (requireTable data "project").toOption
  let root := config.dropLast
  let entryPath ← resolvePath root fields.entryValue
  if !(tree.node entryPath).any FsNode.isFile then none
  let outputDir ← resolvePath root fields.outputValue
  if !sdkPathAccepted tree root project then none
  return ⟨root, entryPath, outputDir⟩

/-! ## Building and cleaning -/

/-- The files, and the directories among them that builds have created. -/
structure ProjectState where
  tree : ProjectTree
  created : FsPath → Bool
  created_dir : ∀ p, created p = true → tree.node p = some .directory

namespace ProjectState

def untouched (tree : ProjectTree) : ProjectState where
  tree := tree
  created _ := false
  created_dir := fun _ h ↦ absurd h Bool.false_ne_true

/-- `shutil.rmtree`, of a directory. -/
def rmtree (s : ProjectState) (dir : FsPath) : ProjectState where
  tree := s.tree.removeTree dir
  created p := s.created p && !decide (dir <+: p)
  created_dir := by
    intro p hp
    rw [Bool.and_eq_true, Bool.not_eq_true', decide_eq_false_iff_not] at hp
    rw [FileTree.removeTree_apart _ hp.2]
    exact s.created_dir p hp.1

/-- `mkdir(parents=True, exist_ok=True)`; `none` when a file is in the way. -/
def mkdir (s : ProjectState) (dir : FsPath) : Option ProjectState :=
  if s.tree.blocked dir then none
  else some {
    tree := s.tree.withDirs dir
    created p := s.created p || (decide (p <+: dir) && (s.tree.node p).isNone)
    created_dir := by
      intro p hp
      by_cases hbelow : p <+: dir
      · exact if_pos hbelow
      · rw [decide_eq_false hbelow, Bool.false_and, Bool.or_false] at hp
        show (if p <+: dir then _ else s.tree.node p) = _
        rw [if_neg hbelow]
        exact s.created_dir p hp }

/-- `write_bytes` and `write_text`; `none` when they raise. -/
def writeFile (s : ProjectState) (path : FsPath) (content : Option PyStr) : Option ProjectState :=
  if h : s.tree.node path.dropLast = some .directory ∧ s.tree.node path ≠ some .directory then
    some {
      tree := s.tree.writeFile path content h.1 h.2
      created := s.created
      created_dir := by
        intro p hp
        have hdir := s.created_dir p hp
        have hne : p ≠ path := by
          rintro rfl
          exact h.2 hdir
        show Function.update s.tree.node path _ p = _
        rw [Function.update_of_ne hne]
        exact hdir }
  else none

/-- The removal of the output directory; `none` is the `NotADirectoryError` of a file. -/
def removeOutput (s : ProjectState) (output : FsPath) : Option ProjectState :=
  match s.tree.node output with
  | none => some s
  | some (.file _) => none
  | some .directory => some (s.rmtree output)

/-- The artifacts that a build writes below the output directory, up to the first that fails. -/
def writeArtifacts (output : FsPath) : List (FsPath × Option PyStr) → ProjectState → ProjectState
  | [], s => s
  | (path, content) :: rest, s =>
    match s.mkdir (output ++ path.dropLast) with
    | none => s
    | some s =>
      match s.writeFile (output ++ path) content with
      | none => s
      | some s => writeArtifacts output rest s

/-- `clean_project`, with the loaded config. -/
def cleanProject (s : ProjectState) (project : BuildConfig) : ProjectState :=
  (s.removeOutput project.outputDir).getD s

end ProjectState

/-- What a build makes of the sources. -/
structure BuildOutcome where
  /-- Tasks were found, and the analysis does not abort the build. -/
  discovered : Bool
  /-- The artifacts that get written, before the build ends or the compiler fails. -/
  artifacts : List (FsPath × Option PyStr)

/-- `build_project`, with the loaded config. -/
def ProjectState.buildProject (s : ProjectState) (project : BuildConfig) (outcome : BuildOutcome) :
    ProjectState :=
  if outcome.discovered = false then s
  else
    match s.removeOutput project.outputDir with
    | none => s
    | some s =>
      match s.mkdir (project.outputDir ++ [points "tasks"]) with
      | none => s
      | some s =>
        match s.mkdir (project.outputDir ++ [points ".tandem"]) with
        | none => s
        | some s => s.writeArtifacts project.outputDir outcome.artifacts

/-! ## Runs -/

/-- The `output_dir` that a config names. -/
def outputValue [TomlValues] (tree : ProjectTree) (config : FsPath) : Option PyStr := do
  let some (.file (some text)) := tree.node config | none
  let data ← parseProjectConfig text
  let fields ← (readProjectFields data).toOption
  return fields.outputValue

/-- What a build or a clean did about the output directory. -/
structure Removal where
  before : ProjectState
  config : FsPath
  project : BuildConfig
  /-- The directory that was removed recursively. -/
  removed : Option FsPath
  /-- The files right after that. -/
  after : ProjectState

def removalOf (s : ProjectState) (config : FsPath) (project : BuildConfig) : Removal where
  before := s
  config := config
  project := project
  removed :=
    if s.tree.node project.outputDir = some .directory then some project.outputDir else none
  after := (s.removeOutput project.outputDir).getD s

inductive ProjectEvent
  | user
  | clean (config : FsPath) (project : BuildConfig)
  | build (config : FsPath) (project : BuildConfig) (outcome : BuildOutcome)

inductive ProjectStep [TomlValues] : ProjectState → ProjectEvent → ProjectState → Prop
  /-- The user changes any files.  Of the directories that builds created some are left, where they
  were or where the user has moved them. -/
  | user {s s' : ProjectState} (origin : FsPath → FsPath) :
      (∀ p, s'.created p = true → s.created (origin p) = true) →
      (∀ p q, s'.created p = true → s'.created q = true → origin p = origin q → p = q) →
      ProjectStep s .user s'
  | clean {s : ProjectState} {config : FsPath} {project : BuildConfig} :
      loadProjectConfig s.tree config = some project →
      ProjectStep s (.clean config project) (s.cleanProject project)
  | build {s : ProjectState} {config : FsPath} {project : BuildConfig} (outcome : BuildOutcome) :
      loadProjectConfig s.tree config = some project →
      ProjectStep s (.build config project outcome) (s.buildProject project outcome)

structure ProjectEntry where
  before : ProjectState
  event : ProjectEvent
  after : ProjectState

/-- A run on a tree that no build has touched. -/
inductive ProjectRun [TomlValues] (tree : ProjectTree) : List ProjectEntry → ProjectState → Prop
  | start : ProjectRun tree [] (.untouched tree)
  | step {s s' : ProjectState} {tr : List ProjectEntry} {event : ProjectEvent} :
      ProjectRun tree tr s → ProjectStep s event s' → ProjectRun tree (tr ++ [⟨s, event, s'⟩]) s'

/-- What is removed in a step. -/
def ProjectEntry.removals (e : ProjectEntry) : List Removal :=
  match e.event with
  | .user => []
  | .clean config project => [removalOf e.before config project]
  | .build config project outcome =>
    if outcome.discovered then [removalOf e.before config project] else []

/-- Neither the config, nor the entry file, nor any other file outside the directories that builds
created is removed, and the directory that is removed is none that they are in. -/
structure Removal.Spares (r : Removal) : Prop where
  config : r.after.tree.node r.config = r.before.tree.node r.config
  entry : r.after.tree.node r.project.entryPath = r.before.tree.node r.project.entryPath
  others : ∀ p content, r.before.tree.node p = some (.file content) → r.after.tree.node p = none →
    ∃ dir, r.before.created dir = true ∧ dir <+: p
  directory : ∀ dir, r.removed = some dir →
    ¬dir <+: r.project.projectRoot ∧ ¬dir <+: r.project.entryPath.dropLast

/-! ## Conditions -/

/-- By its components, the path leads from the root of the project to the directory or above it. -/
def LeadsAbove (root : FsPath) (value : PyStr) (dir : FsPath) : Prop :=
  if value.head? = some (charPoint '/') then (normalize (pathParts value)).names <+: dir
  else
    root.take (root.length - (normalize (pathParts value)).ups) <+: dir ∧
      (normalize (pathParts value)).names <+:
        dir.drop (root.length - (normalize (pathParts value)).ups)

/-- The output directory that the config names leads neither to the directory of the config nor to
that of the entry file, nor above them. -/
def Removal.Away [TomlValues] (r : Removal) : Prop :=
  ∀ value, outputValue r.before.tree r.config = some value →
    ¬LeadsAbove r.config.dropLast value r.config.dropLast ∧
      ¬LeadsAbove r.config.dropLast value r.project.entryPath.dropLast

/-- A file under the path is in a directory that a build created. -/
def ProjectState.Covered (s : ProjectState) (p : FsPath) : Prop :=
  ∀ content, s.tree.node p = some (.file content) → ∃ dir, s.created dir = true ∧ dir <+: p

/-- The output directories are `outputs`, all away from the sources, and the user puts no file of
their own under them, unless into a directory that a build created. -/
structure ProjectEntry.Careful [TomlValues] (outputs : Set FsPath) (e : ProjectEntry) : Prop where
  output : ∀ r ∈ e.removals, r.project.outputDir ∈ outputs
  away : ∀ r ∈ e.removals, r.Away
  user : e.event = .user → ∀ output ∈ outputs, ∀ p, output <+: p → e.after.Covered p

/-! ## What is spared -/

section Sparing

variable [TomlValues] {tree : ProjectTree} {s s' : ProjectState} {config p dir output : FsPath}
  {project : BuildConfig} {event : ProjectEvent} {tr : List ProjectEntry} {outputs : Set FsPath}

omit [TomlValues] in
theorem leadsAbove_iff {root : FsPath} {value : PyStr} (h : resolvePath root value = some output) :
    LeadsAbove root value dir ↔ output <+: dir := by
  unfold resolvePath at h
  unfold LeadsAbove
  split_ifs at h with _ habsolute
  · cases h
    rw [if_pos habsolute, walkPath_prefix_iff]
    simp
  · cases h
    rw [if_neg habsolute, walkPath_prefix_iff]

/-- The config and the entry are files, the root of the project is where the config is, and the
output directory is where the config names it from there. -/
theorem loadProjectConfig_ok (h : loadProjectConfig tree config = some project) :
    (∃ text, tree.node config = some (.file text)) ∧
      (∃ text, tree.node project.entryPath = some (.file text)) ∧
      project.projectRoot = config.dropLast ∧
      ∃ value, outputValue tree config = some value ∧
        resolvePath config.dropLast value = some project.outputDir := by
  unfold loadProjectConfig at h
  unfold outputValue
  cases hnode : tree.node config with
  | none =>
    rw [hnode] at h
    cases h
  | some node =>
    rw [hnode] at h
    match node with
    | .directory => cases h
    | .file none => cases h
    | .file (some text) =>
      refine ⟨⟨some text, rfl⟩, ?_⟩
      simp only [Option.bind_eq_bind, Option.bind_eq_some_iff] at h ⊢
      obtain ⟨data, hdata, fields, hfields, table, -, entryPath, -, h⟩ := h
      split at h
      · cases h
      · rename_i hfile
        simp only [Option.bind_eq_some_iff] at h
        obtain ⟨outputDir, houtput, h⟩ := h
        split at h
        · cases h
        · cases h
          rw [Bool.not_eq_true', Bool.not_eq_false, Option.any_eq_true] at hfile
          obtain ⟨entryNode, hentry, hisFile⟩ := hfile
          match entryNode with
          | .file entryText =>
            exact ⟨⟨entryText, hentry⟩, rfl, fields.outputValue,
              ⟨data, hdata, fields, hfields, rfl⟩, houtput⟩
          | .directory => cases hisFile

theorem away_iff (hload : loadProjectConfig s.tree config = some project) :
    (removalOf s config project).Away ↔
      ¬project.outputDir <+: project.projectRoot ∧
        ¬project.outputDir <+: project.entryPath.dropLast := by
  obtain ⟨-, -, hroot, value, hvalue, houtput⟩ := loadProjectConfig_ok hload
  rw [hroot, ← leadsAbove_iff houtput, ← leadsAbove_iff houtput]
  constructor
  · exact fun h ↦ h value hvalue
  · intro h other hother
    cases hvalue.symm.trans hother
    exact h

omit [TomlValues] in
/-- A file is removed with a directory only if it stands below the directory that holds it. -/
theorem file_below (hfile : ∃ text, tree.node p = some (.file text))
    (hdir : tree.node dir = some .directory) : dir <+: p ↔ dir <+: p.dropLast := by
  obtain ⟨text, hfile⟩ := hfile
  have hne : p ≠ [] := by
    rintro rfl
    rw [tree.root] at hfile
    cases hfile
  constructor
  · intro hbelow
    rw [← List.dropLast_concat_getLast hne] at hbelow
    rcases List.prefix_concat_iff.mp hbelow with heq | hbelow
    · rw [List.dropLast_concat_getLast hne] at heq
      rw [heq, hfile] at hdir
      cases hdir
    · exact hbelow
  · intro hbelow
    exact hbelow.trans (List.dropLast_prefix p)

omit [TomlValues] in
/-- Whatever stands above a file is a directory. -/
theorem directory_of_file (hfile : ∃ text, tree.node p = some (.file text))
    (hbelow : dir <+: p) (hne : dir ≠ p) : tree.node dir = some .directory := by
  obtain ⟨text, hfile⟩ := hfile
  apply tree.node_of_prefix hbelow hne
  rw [hfile]
  exact Option.some_ne_none _

omit [TomlValues] in
theorem directory_of_above (hfile : ∃ text, tree.node p = some (.file text))
    (habove : dir <+: p.dropLast) : tree.node dir = some .directory := by
  refine directory_of_file hfile (habove.trans (List.dropLast_prefix p)) ?_
  rintro rfl
  obtain ⟨text, hfile⟩ := hfile
  cases hnil : dir with
  | nil =>
    rw [hnil, tree.root] at hfile
    cases hfile
  | cons first rest =>
    have hlength := habove.length_le
    rw [List.length_dropLast, hnil, List.length_cons] at hlength
    omega

omit [TomlValues] in
theorem removalOf_directory (config : FsPath)
    (hdir : s.tree.node project.outputDir = some .directory) :
    (removalOf s config project).after = s.rmtree project.outputDir ∧
      (removalOf s config project).removed = some project.outputDir := by
  refine ⟨?_, if_pos hdir⟩
  show (s.removeOutput project.outputDir).getD s = _
  unfold ProjectState.removeOutput
  rw [hdir]
  rfl

omit [TomlValues] in
theorem removalOf_other (config : FsPath)
    (hdir : s.tree.node project.outputDir ≠ some .directory) :
    (removalOf s config project).after = s ∧ (removalOf s config project).removed = none := by
  refine ⟨?_, if_neg hdir⟩
  show (s.removeOutput project.outputDir).getD s = s
  unfold ProjectState.removeOutput
  match hnode : s.tree.node project.outputDir with
  | none => rfl
  | some (.file _) => rfl
  | some .directory => exact absurd hnode hdir

/-- One removal spares what is not the builds' own exactly if the output directory leads away from
the sources and all files under it are in directories that builds created. -/
theorem removalOf_spares_iff (hload : loadProjectConfig s.tree config = some project) :
    (removalOf s config project).Spares ↔ (removalOf s config project).Away ∧
      ∀ p, project.outputDir <+: p → p ≠ project.outputDir → s.Covered p := by
  obtain ⟨hconfig, hentry, hroot, -⟩ := loadProjectConfig_ok hload
  rw [away_iff hload]
  by_cases hdir : s.tree.node project.outputDir = some .directory
  · obtain ⟨hafter, hremoved⟩ := removalOf_directory config hdir
    have hconfigBelow := file_below hconfig hdir
    rw [← hroot] at hconfigBelow
    have hentryBelow := file_below hentry hdir
    -- the files that are left, and those that are not
    have hapart : ∀ p, ¬project.outputDir <+: p →
        (removalOf s config project).after.tree.node p = s.tree.node p := by
      intro p hp
      rw [hafter]
      exact FileTree.removeTree_apart _ hp
    have hgone : ∀ p content, project.outputDir <+: p → s.tree.node p = some (.file content) →
        (removalOf s config project).after.tree.node p = none := by
      intro p content hp hfile
      rw [hafter]
      apply FileTree.removeTree_below _ hp
      rintro rfl
      rw [s.tree.root] at hfile
      cases hfile
    constructor
    · intro hspares
      exact ⟨hspares.directory _ hremoved, fun p hp _ content hfile ↦
        hspares.others p content hfile (hgone p content hp hfile)⟩
    · rintro ⟨⟨hroots, hentries⟩, hcovered⟩
      refine ⟨?_, ?_, ?_, ?_⟩
      · exact hapart config fun hbelow ↦ hroots (hconfigBelow.mp hbelow)
      · exact hapart project.entryPath fun hbelow ↦ hentries (hentryBelow.mp hbelow)
      · intro p content hfile hnone
        have hfile' : s.tree.node p = some (.file content) := hfile
        by_cases hbelow : project.outputDir <+: p
        · refine hcovered p hbelow ?_ content hfile'
          rintro rfl
          rw [hdir] at hfile'
          cases hfile'
        · rw [hapart p hbelow, hfile'] at hnone
          cases hnone
      · intro removed heq
        rw [hremoved] at heq
        cases heq
        exact ⟨hroots, hentries⟩
  · -- nothing is removed, and what stands above the sources or a file is a directory
    obtain ⟨hafter, hremoved⟩ := removalOf_other config hdir
    rw [hroot]
    refine iff_of_true ⟨?_, ?_, ?_, ?_⟩ ⟨⟨?_, ?_⟩, ?_⟩
    · rw [hafter]
      rfl
    · rw [hafter]
      rfl
    · intro p content hfile hgone
      rw [hafter] at hgone
      have hfile' : s.tree.node p = some (.file content) := hfile
      rw [hfile'] at hgone
      cases hgone
    · intro removed heq
      rw [hremoved] at heq
      cases heq
    · exact fun habove ↦ hdir (directory_of_above hconfig habove)
    · exact fun habove ↦ hdir (directory_of_above hentry habove)
    · intro p hbelow hne content hfile
      exact absurd (directory_of_file ⟨content, hfile⟩ hbelow hne.symm) hdir

/-! ## What builds and cleans leave covered -/

namespace ProjectState

omit [TomlValues] in
theorem Covered.rmtree (h : s.Covered p) (dir : FsPath) : (s.rmtree dir).Covered p := by
  intro content hfile
  have hbelow : ¬dir <+: p := by
    intro hbelow
    have hnil : p ≠ [] := by
      rintro rfl
      rw [(s.rmtree dir).tree.root] at hfile
      cases hfile
    have hnone : (s.rmtree dir).tree.node p = none := FileTree.removeTree_below _ hbelow hnil
    rw [hnone] at hfile
    cases hfile
  have hkept : (s.rmtree dir).tree.node p = s.tree.node p := FileTree.removeTree_apart _ hbelow
  rw [hkept] at hfile
  obtain ⟨created, hcreated, habove⟩ := h content hfile
  refine ⟨created, ?_, habove⟩
  have hapart : ¬dir <+: created := fun hdir ↦ hbelow (hdir.trans habove)
  show (s.created created && !decide (dir <+: created)) = true
  rw [hcreated, decide_eq_false hapart]
  rfl

omit [TomlValues] in
/-- What `mkdir` leaves of the files, and which directories it creates. -/
theorem mkdir_spec (h : s.mkdir dir = some s') :
    (∀ p content, s'.tree.node p = some (.file content) → s.tree.node p = some (.file content)) ∧
      (∀ p, s.created p = true → s'.created p = true) ∧
      ∀ p, p <+: dir → s.tree.node p = none → s'.created p = true := by
  unfold mkdir at h
  split_ifs at h with hblocked
  cases h
  refine ⟨?_, ?_, ?_⟩
  · intro p content hfile
    change (if p <+: dir then _ else s.tree.node p) = _ at hfile
    by_cases hp : p <+: dir
    · rw [if_pos hp] at hfile
      cases hfile
    · rwa [if_neg hp] at hfile
  · intro p hp
    show (s.created p || _) = true
    rw [hp, Bool.true_or]
  · intro p hp hnone
    show (s.created p || (decide (p <+: dir) && (s.tree.node p).isNone)) = true
    rw [decide_eq_true hp, hnone]
    exact Bool.or_true _

omit [TomlValues] in
theorem Covered.mkdir (hp : s.Covered p) (h : s.mkdir dir = some s') : s'.Covered p := by
  obtain ⟨hfiles, hcreated, -⟩ := mkdir_spec h
  intro content hfile
  obtain ⟨above, habove, hprefix⟩ := hp content (hfiles p content hfile)
  exact ⟨above, hcreated above habove, hprefix⟩

omit [TomlValues] in
/-- A file that is written into a created directory is covered. -/
theorem Covered.writeFile (hp : s.Covered p) {path : FsPath} {content : Option PyStr}
    (h : s.writeFile path content = some s') (hcreated : s.created output = true)
    (hbelow : output <+: path) : s'.Covered p ∧ s'.created output = true := by
  unfold ProjectState.writeFile at h
  split_ifs at h
  cases h
  refine ⟨?_, hcreated⟩
  intro other hfile
  change Function.update s.tree.node path _ p = _ at hfile
  by_cases hpath : p = path
  · exact ⟨output, hcreated, hpath ▸ hbelow⟩
  · rw [Function.update_of_ne hpath] at hfile
    exact hp other hfile

omit [TomlValues] in
theorem Covered.writeArtifacts (hp : s.Covered p) (hcreated : s.created output = true)
    (artifacts : List (FsPath × Option PyStr)) : (s.writeArtifacts output artifacts).Covered p := by
  induction artifacts generalizing s with
  | nil => exact hp
  | cons artifact rest ih =>
    obtain ⟨path, content⟩ := artifact
    unfold ProjectState.writeArtifacts
    cases hmkdir : s.mkdir (output ++ path.dropLast) with
    | none => exact hp
    | some s₁ =>
      have hcreated₁ := (mkdir_spec hmkdir).2.1 output hcreated
      dsimp only
      cases hwrite : s₁.writeFile (output ++ path) content with
      | none => exact hp.mkdir hmkdir
      | some s₂ =>
        obtain ⟨hp₂, hcreated₂⟩ := (hp.mkdir hmkdir).writeFile hwrite hcreated₁
          (List.prefix_append output path)
        exact ih hp₂ hcreated₂

omit [TomlValues] in
/-- Unless the root is its output directory, a build leaves covered what is covered: what it writes
is in the output directory, which it has just created. -/
theorem Covered.buildProject (hp : s.Covered p) (hroot : project.outputDir ≠ [])
    (outcome : BuildOutcome) : (s.buildProject project outcome).Covered p := by
  unfold ProjectState.buildProject
  split_ifs
  · exact hp
  · have hremoved : ∀ s₁, s.removeOutput project.outputDir = some s₁ →
        s₁.Covered p ∧ s₁.tree.node project.outputDir = none := by
      intro s₁ h
      unfold removeOutput at h
      match hnode : s.tree.node project.outputDir with
      | none =>
        rw [hnode] at h
        cases h
        exact ⟨hp, hnode⟩
      | some (.file _) =>
        rw [hnode] at h
        cases h
      | some .directory =>
        rw [hnode] at h
        cases h
        exact ⟨hp.rmtree _, FileTree.removeTree_below _ (List.prefix_refl _) hroot⟩
    cases hremove : s.removeOutput project.outputDir with
    | none => exact hp
    | some s₁ =>
      obtain ⟨hp₁, hnone⟩ := hremoved s₁ hremove
      dsimp only
      cases htasks : s₁.mkdir (project.outputDir ++ [points "tasks"]) with
      | none => exact hp₁
      | some s₂ =>
        have hcreated := (mkdir_spec htasks).2.2 _ (List.prefix_append _ _) hnone
        dsimp only
        cases htandem : s₂.mkdir (project.outputDir ++ [points ".tandem"]) with
        | none => exact hp₁.mkdir htasks
        | some s₃ =>
          exact ((hp₁.mkdir htasks).mkdir htandem).writeArtifacts
            ((mkdir_spec htandem).2.1 _ hcreated) _

omit [TomlValues] in
theorem Covered.cleanProject (hp : s.Covered p) (project : BuildConfig) :
    (s.cleanProject project).Covered p := by
  unfold ProjectState.cleanProject ProjectState.removeOutput
  match s.tree.node project.outputDir with
  | none => exact hp
  | some (.file _) => exact hp
  | some .directory => exact hp.rmtree _

end ProjectState

/-! ## Runs that spare the sources -/

theorem ProjectStep.removals (h : ProjectStep s event s') :
    ∀ r ∈ ProjectEntry.removals ⟨s, event, s'⟩, ∃ config project,
      loadProjectConfig s.tree config = some project ∧ r = removalOf s config project := by
  intro r hr
  cases h with
  | user => cases hr
  | @clean config project hload => exact ⟨config, project, hload, List.mem_singleton.mp hr⟩
  | @build config project outcome hload =>
    unfold ProjectEntry.removals at hr
    dsimp only at hr
    split_ifs at hr
    · exact ⟨config, project, hload, List.mem_singleton.mp hr⟩
    · cases hr

/-- A careful step leaves what is under the output directories covered. -/
theorem ProjectStep.covered (h : ProjectStep s event s')
    (hcareful : ProjectEntry.Careful outputs ⟨s, event, s'⟩)
    (hcovered : ∀ output ∈ outputs, ∀ p, output <+: p → s.Covered p) :
    ∀ output ∈ outputs, ∀ p, output <+: p → s'.Covered p := by
  intro output houtput p hp
  have hbefore := hcovered output houtput p hp
  cases h with
  | user => exact hcareful.user rfl output houtput p hp
  | @clean config project hload => exact hbefore.cleanProject project
  | @build config project outcome hload =>
    cases hdiscovered : outcome.discovered with
    | false =>
      show (s.buildProject project outcome).Covered p
      unfold ProjectState.buildProject
      rw [if_pos hdiscovered]
      exact hbefore
    | true =>
      have hremovals : ProjectEntry.removals ⟨s, .build config project outcome,
          s.buildProject project outcome⟩ = [removalOf s config project] := if_pos hdiscovered
      have haway := hcareful.away (removalOf s config project)
        (by rw [hremovals]; exact List.mem_singleton_self _)
      refine hbefore.buildProject ?_ outcome
      intro hroot
      apply ((away_iff hload).mp haway).1
      rw [hroot]
      exact List.nil_prefix

theorem ProjectRun.covered (h : ProjectRun tree tr s)
    (hstart : ∀ output ∈ outputs, ∀ p content, output <+: p →
      tree.node p ≠ some (.file content))
    (hcareful : ∀ e ∈ tr, e.Careful outputs) :
    ∀ output ∈ outputs, ∀ p, output <+: p → s.Covered p := by
  induction h with
  | start =>
    intro output houtput p hp content hfile
    exact absurd hfile (hstart output houtput p content hp)
  | step hrun hstep ih =>
    have hbefore := ih fun e he ↦ hcareful e (List.mem_append_left _ he)
    exact hstep.covered (hcareful _ (List.mem_append_right _ (List.mem_singleton_self _))) hbefore

/-- Careful builds, cleans and changes spare the sources and whatever else is not in a directory
that a build created, and a removal spares them in no other way. -/
theorem removals_spare (h : ProjectRun tree tr s)
    (hstart : ∀ output ∈ outputs, ∀ p content, output <+: p →
      tree.node p ≠ some (.file content)) :
    ((∀ e ∈ tr, e.Careful outputs) → ∀ e ∈ tr, ∀ r ∈ e.removals, r.Spares) ∧
      ∀ e ∈ tr, ∀ r ∈ e.removals, r.Spares ↔ r.Away ∧
        ∀ p, r.project.outputDir <+: p → p ≠ r.project.outputDir → r.before.Covered p := by
  induction h with
  | start => simp
  | @step s s' tr event hrun hstep ih =>
    have hlast : ∀ r ∈ ProjectEntry.removals ⟨s, event, s'⟩, r.Spares ↔ r.Away ∧
        ∀ p, r.project.outputDir <+: p → p ≠ r.project.outputDir → r.before.Covered p := by
      intro r hr
      obtain ⟨config, project, hload, rfl⟩ := hstep.removals r hr
      exact removalOf_spares_iff hload
    constructor
    · intro hcareful e he r hr
      have hbefore : ∀ e ∈ tr, e.Careful outputs := fun e he ↦
        hcareful e (List.mem_append_left _ he)
      rcases List.mem_append.mp he with he | he
      · exact ih.1 hbefore e he r hr
      · have hthis := hcareful e (List.mem_append_right _ he)
        cases List.mem_singleton.mp he
        obtain ⟨config, project, hload, rfl⟩ := hstep.removals r hr
        exact (hlast _ hr).mpr ⟨hthis.away _ hr, fun p hp _ ↦
          hrun.covered hstart hbefore _ (hthis.output _ hr) p hp⟩
    · intro e he r hr
      rcases List.mem_append.mp he with he | he
      · exact ih.2 e he r hr
      · cases List.mem_singleton.mp he
        exact hlast r hr

end Sparing

/-! ## A project that is its own output directory -/

namespace Sample

def emptyTree : ProjectTree where
  node p := if p = [] then some .directory else none
  root := if_pos rfl
  parent := by
    intro p c h
    rw [if_neg (by simp)] at h
    exact absurd rfl h

def projectDir : FsPath := [points "home", points "app"]

def configPath : FsPath := projectDir ++ [points "tandem.toml"]

/-- A project with the output directory that is given. -/
def projectTree (output : PyStr) : ProjectTree :=
  ((emptyTree.withDirs projectDir).writeFile (projectDir ++ [points "tasks.py"]) (some [])
    (by decide) (by decide)).writeFile configPath
      (some (projectConfigText (points "app") (points "0.1.0") (points "tasks.py") output))
      (by decide) (by decide)

end Sample

open Sample in
/-- With the output directory `.`, `tandem clean` removes the config and the sources. -/
theorem clean_removes_project : ∃ tr s, ProjectRun (projectTree (points ".")) tr s ∧
    ∃ e ∈ tr, ∃ r ∈ e.removals, r.after.tree.node configPath = none ∧
      r.after.tree.node (projectDir ++ [points "tasks.py"]) = none ∧ ¬r.Spares := by
  have hload : loadProjectConfig (projectTree (points ".")) configPath =
      some ⟨projectDir, projectDir ++ [points "tasks.py"], projectDir⟩ := by
    decide +kernel
  have hrun := ProjectRun.start.step (ProjectStep.clean (s := .untouched _) hload)
  refine ⟨_, _, hrun, _, List.mem_singleton_self _, _, List.mem_singleton_self _, by decide +kernel,
    by decide +kernel, ?_⟩
  intro hspares
  exact (hspares.directory projectDir (by decide +kernel)).1 (List.prefix_refl _)

namespace Sample

def buildDir : FsPath := projectDir ++ [points "build"]

def buildConfig : BuildConfig := ⟨projectDir, projectDir ++ [points "tasks.py"], buildDir⟩

def builtProject : ProjectState :=
  (ProjectState.untouched (projectTree (points "build"))).buildProject buildConfig ⟨true, []⟩

theorem projectTree_output {output : PyStr} {p : FsPath} (h : buildDir <+: p) :
    (projectTree output).node p = none := by
  obtain ⟨rest, rfl⟩ := h
  have hconfig : buildDir ++ rest ≠ configPath := by
    intro heq
    have hname : some (points "build") = some (points "tandem.toml") := congrArg (·[2]?) heq
    revert hname
    decide
  have hentry : buildDir ++ rest ≠ projectDir ++ [points "tasks.py"] := by
    intro heq
    have hname : some (points "build") = some (points "tasks.py") := congrArg (·[2]?) heq
    revert hname
    decide
  have habove : ¬buildDir ++ rest <+: projectDir := by
    intro habove
    have hlength := habove.length_le
    simp [buildDir, projectDir] at hlength
  have hnode : (projectTree output).node (buildDir ++ rest) =
      Function.update (Function.update
        (fun q ↦ if q <+: projectDir then some .directory else emptyTree.node q)
        (projectDir ++ [points "tasks.py"]) (some (.file (some [])))) configPath
        (some (.file (some (projectConfigText (points "app") (points "0.1.0") (points "tasks.py")
          output)))) (buildDir ++ rest) := rfl
  rw [hnode, Function.update_of_ne hconfig, Function.update_of_ne hentry, if_neg habove]
  rfl

end Sample

open Sample in
/-- A build into `build` and a clean after it, which removes what the build has created. -/
theorem clean_spares_project : ∃ tr s, ProjectRun (projectTree (points "build")) tr s ∧
    (∃ e ∈ tr, ∃ r ∈ e.removals, r.removed = some buildDir) ∧
    ∀ e ∈ tr, ∀ r ∈ e.removals, r.Spares := by
  have hload : loadProjectConfig (projectTree (points "build")) configPath = some buildConfig := by
    decide +kernel
  have hreload : loadProjectConfig builtProject.tree configPath = some buildConfig := by
    decide +kernel
  have hrun := (ProjectRun.start.step (ProjectStep.build (s := .untouched _) ⟨true, []⟩ hload)).step
    (ProjectStep.clean (s := builtProject) hreload)
  have haway : ∀ {s : ProjectState}, loadProjectConfig s.tree configPath = some buildConfig →
      (removalOf s configPath buildConfig).Away := fun h ↦ (away_iff h).mpr (by decide)
  have hclear : ∀ output ∈ ({buildDir} : Set FsPath), ∀ p content, output <+: p →
      (projectTree (points "build")).node p ≠ some (.file content) := by
    rintro output rfl p content hp hfile
    cases (projectTree_output hp).symm.trans hfile
  refine ⟨_, _, hrun, ⟨_, List.mem_append_right _ (List.mem_singleton_self _), _,
    List.mem_singleton_self _, by decide +kernel⟩, (removals_spare hrun hclear).1 fun e he ↦ ?_⟩
  rcases List.mem_append.mp he with he | he
  · cases List.mem_singleton.mp he
    refine ⟨fun r hr ↦ ?_, fun r hr ↦ ?_, fun h ↦ nomatch h⟩
    · cases List.mem_singleton.mp hr
      rfl
    · cases List.mem_singleton.mp hr
      exact haway hload
  · cases List.mem_singleton.mp he
    refine ⟨fun r hr ↦ ?_, fun r hr ↦ ?_, fun h ↦ nomatch h⟩
    · cases List.mem_singleton.mp hr
      rfl
    · cases List.mem_singleton.mp hr
      exact haway hreload

end TandemAio
