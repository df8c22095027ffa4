import TandemAio.Reasoning.Raising
import TandemAio.Reasoning.Toml

/-!
# `app_config.py`: the project file

The file that `tandem init` writes, and what `load_project_config` reads in it.
-/

open Reasoning

namespace TandemAio

/-! ## Writing -/

/-- `key = "value"`, on a line. -/
def configLine (key value : PyStr) : PyStr :=
  key ++ (points " = \"" ++ (value ++ points "\"\n"))

/-- `# comment`, on a line. -/
def commentLine (comment : PyStr) : PyStr := points "#" ++ (comment ++ points "\n")

def hostingHint : PyStr :=
  points " Hosting a web app instead? Add a [build] section with a start command,"

def hostingExample : PyStr :=
  points " e.g.  start = \"python app.py\"  -- then deploy it with `tandem serve`."

/-- The end of the file. -/
def hostingComment : PyStr :=
  points "\n" ++ (commentLine hostingHint ++ commentLine hostingExample)

/-- What `write_project_config` writes. -/
def projectConfigText (name version entry outputDir : PyStr) : PyStr :=
  points "[project]\n" ++ (configLine (points "name") name ++
    (configLine (points "runtime") (points "python") ++ (configLine (points "version") version ++
      (configLine (points "entry") entry ++
        (configLine (points "output_dir") outputDir ++ hostingComment)))))

/-- `.tandem_build/{name}` -/
def defaultOutputDir (name : PyStr) : PyStr := points ".tandem_build/" ++ name

/-- `write_project_config`; `none` is a `UnicodeEncodeError`. -/
def writeProjectConfig (name entry : PyStr) (outputDir : Option PyStr) (version : PyStr) :
    Option PyStr :=
  let resolvedOutputDir :=
    match outputDir with
    | none => defaultOutputDir name
    | some outputDir => if outputDir = [] then defaultOutputDir name else outputDir
  let content := projectConfigText name version entry resolvedOutputDir
  -- UTF-8 writes any other text, and reads it back
  if content.any fun c ↦ c.IsSurrogate then none else some content

/-! ## Reading -/

inductive ConfigError
  /-- A `TOMLDecodeError`. -/
  | couldNotParse
  | missingTable (key : String)
  | pythonNoTable
  | noString (field : String)
  | unsupportedRuntime (runtime : PyStr)
  | noEntry
deriving DecidableEq

/-- `supported_runtimes` -/
def supportedRuntimes : List PyStr := [points "python"]

/-- The text of the `ValueError`, after the path that the first one names. -/
def ConfigError.message [PythonText] : ConfigError → PyStr
  | couldNotParse => points "Could not parse"
  | missingTable key => points ("Missing required TOML table [" ++ key ++ "].")
  | pythonNoTable => points "If present, [python] must be a TOML table."
  | noString field => points ("Expected `" ++ field ++ "` to be a non-empty string.")
  | unsupportedRuntime runtime =>
    points "Unsupported runtime " ++ strRepr runtime ++ points ". Supported runtimes: " ++
      (supportedRuntimes.intersperse (points ", ")).flatten ++ points "."
  | noEntry => points <|
      "Project config must define `project.entry` (or `project.source`) pointing to a " ++
        "Python module file."

/-- What `load_project_config` takes from the tables of the file, before it looks at any path. -/
structure ProjectFields where
  name : PyStr
  runtime : PyStr
  version : PyStr
  entryValue : PyStr
  outputValue : PyStr
deriving DecidableEq

/-- `_require_table` -/
def requireTable (data : TomlTable) (key : String) : Except ConfigError TomlTable :=
  match data.lookup (points key) with
  | some (.table table) => .ok table
  | _ => .error (.missingTable key)

/-- `_coerce_string` -/
def coerceString (value : Option TomlValue) (field : String) : Except ConfigError PyStr :=
  match value with
  | some (.str text) =>
    if PyStr.strip text = [] then .error (.noString field) else .ok (PyStr.strip text)
  | _ => .error (.noString field)

/-- `data.get("python") or {}` -/
def pythonSection (data : TomlTable) : Except ConfigError TomlTable :=
  match data.lookup (points "python") with
  | none => .ok []
  | some (.table table) => .ok table
  | some value => if value.truthy then .error .pythonNoTable else .ok []

/-- The body of the loop of `_resolve_entry_value`; `none` goes on. -/
def entryUnder (project python : TomlTable) (key : String) : Option (Except ConfigError PyStr) :=
  if (project.lookup (points key)).isSome then
    some (coerceString (project.lookup (points key)) ("project." ++ key))
  else if (python.lookup (points key)).isSome then
    some (coerceString (python.lookup (points key)) ("python." ++ key))
  else none

/-- `_resolve_entry_value` -/
def resolveEntryValue (project python : TomlTable) : Except ConfigError PyStr :=
  match entryUnder project python "entry", entryUnder project python "source" with
  | some result, _ => result
  | none, some result => result
  | none, none => .error .noEntry

/-- `project.get(key, default)` -/
def getDefault (project : TomlTable) (key : String) (default : PyStr) : Option TomlValue :=
  some ((project.lookup (points key)).getD (.str default))

/-- The part of `load_project_config` that reads the tables. -/
def readProjectFields (data : TomlTable) : Except ConfigError ProjectFields := do
  let project ← requireTable data "project"
  let python ← pythonSection data
  let name ← coerceString (project.lookup (points "name")) "project.name"
  let runtime ← coerceString (getDefault project "runtime" (points "python")) "project.runtime"
  if runtime ∉ supportedRuntimes then throw (.unsupportedRuntime runtime)
  let version ← coerceString (getDefault project "version" (points "0.1.0")) "project.version"
  let entryValue ← resolveEntryValue project python
  let outputValue ←
    coerceString (getDefault project "output_dir" (defaultOutputDir name)) "project.output_dir"
  return ⟨name, runtime, version, entryValue, outputValue⟩

section Loading

variable [TomlValues]

/-- `tomllib.loads(config_path.read_text(..))`, for the text in the file. -/
def parseProjectConfig (file : PyStr) : Option TomlTable := Toml.loads (universalNewlines file)

/-- What `load_project_config` makes of the text in the file. -/
def loadProjectFields (file : PyStr) : Except ConfigError ProjectFields :=
  match parseProjectConfig file with
  | none => .error .couldNotParse
  | some data => readProjectFields data

/-- The file is written, and reading it gives back the four strings and nothing else. -/
def RoundTrips (name version entry outputDir : PyStr) : Prop :=
  ∃ file data project, writeProjectConfig name entry (some outputDir) version = some file ∧
    parseProjectConfig file = some data ∧
    readProjectFields data = .ok ⟨name, points "python", version, entry, outputDir⟩ ∧
    data.lookup (points "project") = some (.table project) ∧
    project.map Prod.fst = [points "name", points "runtime", points "version", points "entry",
      points "output_dir"]

/-! ## Lines of the file -/

open Toml

omit [TomlValues] in
theorem configLine_append (key value rest : PyStr) : configLine key value ++ rest =
    key ++ charPoint ' ' :: equals :: charPoint ' ' :: quote ::
      (value ++ quote :: newline :: rest) := by
  have hopen : points " = \"" = [charPoint ' ', equals, charPoint ' ', quote] := by decide
  have hclose : points "\"\n" = [quote, newline] := by decide
  unfold configLine
  rw [hopen, hclose]
  simp only [List.append_assoc, List.cons_append, List.nil_append]

theorem statements_header (n : Nat) (rest : PyStr) :
    statements (n + 1) (points "[project]\n" ++ rest) .initial =
      statements n rest (.inTable (points "project") []) := rfl

theorem lineEnd_newline (n : Nat) (rest : PyStr) (st : State) :
    lineEnd n (newline :: rest) st = statements n rest st := rfl

omit [TomlValues] in
theorem addEntry_absent {fields : TomlTable} {key : PyStr} (h : fields.lookup key = none)
    (value : TomlValue) : addEntry key value fields = some (setEntry fields key value) := by
  unfold addEntry
  rw [h]

variable {n : Nat} {table key value rest : PyStr} {fields data : TomlTable}

/-- A line with a plain string is read as it is. -/
theorem statements_configLine (hbare : ∀ c ∈ key, isBare c = true) (hkey : key ≠ [])
    (hplain : ∀ c ∈ value, PlainPoint c) (hvalue : value ≠ []) (habsent : fields.lookup key = none) :
    statements (n + 1) (configLine key value ++ rest) (.inTable table fields) =
      statements n rest (.inTable table (setEntry fields key (.str value))) := by
  have hparse := parseValue_plain hplain hvalue (newline :: rest)
  rw [List.cons_append] at hparse
  rw [configLine_append, statements_pair hbare hkey, hparse]
  dsimp only
  rw [assign_inTable, addEntry_absent habsent, Option.map_some]
  exact lineEnd_newline n rest _

/-- The text has an equals sign before its first quotation mark. -/
def EqualsFirst (rest : PyStr) : Prop :=
  ∃ between after, rest = between ++ after ∧ quote ∉ between ∧ equals ∈ between

/-- A line whose string is read back as it was given has a plain one. -/
theorem plain_of_statements (hbare : ∀ c ∈ key, isBare c = true) (hkey : key ≠ [])
    (hvalue : value ≠ []) (hrest : EqualsFirst rest) (habsent : fields.lookup key = none)
    (hread : ∀ {text}, HasText data table key text → PyStr.strip text = value)
    (h : statements n (configLine key (universalNewlines value) ++ rest)
      (.inTable table fields) = some data) :
    universalNewlines value = value ∧ (∀ c ∈ value, PlainPoint c) ∧
      ∃ n, statements n rest (.inTable table (setEntry fields key (.str value))) = some data := by
  obtain ⟨between, after, rfl, hbetween, hequals⟩ := hrest
  cases n with
  | zero => cases h
  | succ n =>
    rw [configLine_append, statements_pair hbare hkey] at h
    cases hparse : parseValue
        (quote :: (universalNewlines value ++ quote :: newline :: (between ++ after))) with
    | none =>
      rw [hparse] at h
      cases h
    | some result =>
      obtain ⟨read, rest⟩ := result
      rw [hparse] at h
      obtain ⟨text, rfl, hsplit⟩ := parseValue_split hbetween hequals hparse
      dsimp only at h
      rw [assign_inTable, addEntry_absent habsent, Option.map_some] at h
      dsimp only at h
      have htext : HasText data table key text :=
        lineEnd_hasText h ⟨_, List.lookup_cons_self, lookup_setEntry_self fields key _⟩
      -- what is read is no shorter than what was given, and has no more equals signs
      have hstrip := hread htext
      have hsub : value.Sublist text := hstrip ▸ PyStr.strip_sublist text
      have hlength := hsub.length_le
      have hnewlines : (universalNewlines value).length ≤ value.length :=
        length_newlinesFrom false value
      have hcount : text.count equals = (universalNewlines value).count equals := by
        unfold universalNewlines
        rw [count_newlinesFrom (by decide) (by decide), ← hstrip,
          PyStr.count_strip (by decide)]
      rcases hsplit with ⟨heq, hplain⟩ | hshort | hmore
      · rw [heq] at hsub
        have hsame : value = universalNewlines value :=
          hsub.eq_of_length (Nat.le_antisymm hsub.length_le hnewlines)
        rw [← hsame] at hplain hparse
        refine ⟨hsame.symm, hplain, n, ?_⟩
        have hplainParse := parseValue_plain hplain hvalue (newline :: (between ++ after))
        rw [List.cons_append, hparse, Option.some.injEq, Prod.mk.injEq] at hplainParse
        rw [hplainParse.1, hplainParse.2] at h
        exact h
      · omega
      · omega

omit [TomlValues] in
/-- The parts of the fields that were read. -/
theorem readProjectFields_ok {f : ProjectFields} (h : readProjectFields data = .ok f) :
    ∃ project python, data.lookup (points "project") = some (.table project) ∧
      coerceString (project.lookup (points "name")) "project.name" = .ok f.name ∧
      coerceString (getDefault project "version" (points "0.1.0")) "project.version" =
        .ok f.version ∧
      resolveEntryValue project python = .ok f.entryValue ∧
      coerceString (getDefault project "output_dir" (defaultOutputDir f.name))
        "project.output_dir" = .ok f.outputValue := by
  unfold readProjectFields at h
  obtain ⟨project, hproject, h⟩ := except_bind_ok.mp h
  obtain ⟨python, -, h⟩ := except_bind_ok.mp h
  obtain ⟨name, hname, h⟩ := except_bind_ok.mp h
  obtain ⟨runtime, -, h⟩ := except_bind_ok.mp h
  dsimp only at h
  by_cases hruntime : runtime ∉ supportedRuntimes
  · rw [if_pos hruntime] at h
    cases h
  rw [if_neg hruntime] at h
  obtain ⟨version, hversion, h⟩ := except_bind_ok.mp h
  obtain ⟨entry, hentry, h⟩ := except_bind_ok.mp h
  obtain ⟨output, houtput, h⟩ := except_bind_ok.mp h
  cases h
  refine ⟨project, python, ?_, hname, hversion, hentry, houtput⟩
  unfold requireTable at hproject
  split at hproject
  · rename_i table hlookup
    cases hproject
    exact hlookup
  · cases hproject

/-! ## The round trip -/

omit [TomlValues] in
theorem joinLineEnds_eq_self {s : PyStr} (h : charPoint '\r' ∉ s) : joinLineEnds s = s := by
  induction s with
  | nil => rfl
  | cons c s ih =>
    have hs : charPoint '\r' ∉ s := fun hmem ↦ h (List.mem_cons_of_mem c hmem)
    cases s with
    | nil => rfl
    | cons d s =>
      have hc : ¬(c = charPoint '\r' ∧ d = newline) := fun hc ↦ h (hc.1 ▸ List.mem_cons_self)
      rw [joinLineEnds, if_neg hc, ih hs]

omit [TomlValues] in
theorem universalNewlines_configLine (hkey : charPoint '\r' ∉ key) (value rest : PyStr) :
    universalNewlines (configLine key value ++ rest) =
      configLine key (universalNewlines value) ++ universalNewlines rest := by
  have hopen : charPoint '\r' ∉ key ++ [charPoint ' ', equals, charPoint ' ', quote] := by
    intro hmem
    rcases List.mem_append.mp hmem with hmem | hmem
    · exact hkey hmem
    · exact absurd hmem (by decide)
  have hparts : ∀ after : PyStr,
      key ++ charPoint ' ' :: equals :: charPoint ' ' :: quote :: after =
        (key ++ [charPoint ' ', equals, charPoint ' ', quote]) ++ after := by
    intro after
    rw [List.append_assoc]
    rfl
  have hline : newlinesFrom false (newline :: rest) = newline :: newlinesFrom false rest :=
    newlinesFrom_eq_self (s := [newline]) (by decide) rest
  unfold universalNewlines
  rw [configLine_append, configLine_append, hparts (value ++ _), newlinesFrom_eq_self hopen,
    newlinesFrom_append (by decide) (by decide), hline, ← hparts]

omit [TomlValues] in
theorem universalNewlines_projectConfigText (name version entry outputDir : PyStr) :
    universalNewlines (projectConfigText name version entry outputDir) =
      projectConfigText (universalNewlines name) (universalNewlines version)
        (universalNewlines entry) (universalNewlines outputDir) := by
  have hconst : ∀ s t : PyStr, charPoint '\r' ∉ s →
      universalNewlines (s ++ t) = s ++ universalNewlines t := fun s t h ↦ newlinesFrom_eq_self h t
  have hall : ∀ s : PyStr, charPoint '\r' ∉ s → universalNewlines s = s := by
    intro s h
    have hself := hconst s [] h
    rwa [List.append_nil, show universalNewlines [] = [] from rfl, List.append_nil] at hself
  unfold projectConfigText
  rw [hconst _ _ (by decide), universalNewlines_configLine (by decide),
    universalNewlines_configLine (by decide), universalNewlines_configLine (by decide),
    universalNewlines_configLine (by decide), universalNewlines_configLine (by decide),
    hall (points "python") (by decide), hall hostingComment (by decide)]

/-- The entries that the file gives to `[project]`. -/
def projectEntries (name version entry outputDir : PyStr) : TomlTable :=
  [(points "name", .str name), (points "runtime", .str (points "python")),
    (points "version", .str version), (points "entry", .str entry),
    (points "output_dir", .str outputDir)]

omit [TomlValues] in
theorem commentLine_append (comment rest : PyStr) :
    commentLine comment ++ rest = charPoint '#' :: (comment ++ newline :: rest) := by
  have hopen : points "#" = [charPoint '#'] := by decide
  have hclose : points "\n" = [newline] := by decide
  unfold commentLine
  rw [hopen, hclose]
  simp only [List.append_assoc, List.cons_append, List.nil_append]

theorem statements_commentLine {comment : PyStr} (h : comment.all (!isIllegal false ·) = true)
    (n : Nat) (rest : PyStr) (st : State) :
    statements (n + 1) (commentLine comment ++ rest) st = statements n rest st := by
  rw [commentLine_append]
  apply statements_comment
  intro c hc
  have hlegal := List.all_eq_true.mp h c hc
  rwa [Bool.not_eq_true'] at hlegal

theorem statements_hostingComment (n : Nat) (st : State) :
    statements (n + 4) hostingComment st = some st.data := by
  have hline : points "\n" = [newline] := by decide
  unfold hostingComment
  rw [hline, List.singleton_append, statements_newline, statements_commentLine (by decide),
    ← List.append_nil (commentLine hostingExample), statements_commentLine (by decide)]
  rfl

omit [TomlValues] in
/-- The keys of the file. -/
theorem keys_bare : ∀ key ∈ ["name", "runtime", "version", "entry", "output_dir"],
    (∀ c ∈ points key, isBare c = true) ∧ points key ≠ [] := by
  intro key hkey
  have hall : ∀ key ∈ ["name", "runtime", "version", "entry", "output_dir"],
      (points key).all isBare = true ∧ points key ≠ [] := by decide
  exact ⟨List.all_eq_true.mp (hall key hkey).1, (hall key hkey).2⟩

omit [TomlValues] in
theorem python_plain : ∀ c ∈ points "python", PlainPoint c := by
  have hall : (points "python").all (fun c ↦ decide (PlainPoint c)) = true := by decide
  intro c hc
  exact of_decide_eq_true (List.all_eq_true.mp hall c hc)

section Values

variable {name version entry outputDir : PyStr}

/-- A file whose strings are all plain is read as it was written. -/
theorem statements_plain
    (h : ∀ s ∈ [name, version, entry, outputDir], (∀ c ∈ s, PlainPoint c) ∧ s ≠ []) (n : Nat) :
    statements (n + 10) (projectConfigText name version entry outputDir) .initial =
      some [(points "project", .table (projectEntries name version entry outputDir))] := by
  obtain ⟨hname, hname'⟩ := h name (by simp)
  obtain ⟨hversion, hversion'⟩ := h version (by simp)
  obtain ⟨hentry, hentry'⟩ := h entry (by simp)
  obtain ⟨houtput, houtput'⟩ := h outputDir (by simp)
  obtain ⟨hbare₁, hne₁⟩ := keys_bare "name" (by simp)
  obtain ⟨hbare₂, hne₂⟩ := keys_bare "runtime" (by simp)
  obtain ⟨hbare₃, hne₃⟩ := keys_bare "version" (by simp)
  obtain ⟨hbare₄, hne₄⟩ := keys_bare "entry" (by simp)
  obtain ⟨hbare₅, hne₅⟩ := keys_bare "output_dir" (by simp)
  unfold projectConfigText
  rw [statements_header, statements_configLine hbare₁ hne₁ hname hname' rfl,
    statements_configLine hbare₂ hne₂ python_plain (by decide) rfl,
    statements_configLine hbare₃ hne₃ hversion hversion' rfl,
    statements_configLine hbare₄ hne₄ hentry hentry' rfl,
    statements_configLine hbare₅ hne₅ houtput houtput' rfl, statements_hostingComment]
  rfl

omit [TomlValues] in
theorem coerceString_str {s : PyStr} (hne : s ≠ []) (hstrip : PyStr.strip s = s)
    (field : String) : coerceString (some (.str s)) field = .ok s := by
  unfold coerceString
  dsimp only
  rw [hstrip, if_neg hne]

omit [TomlValues] in
theorem coerceString_text {text s : PyStr} {field : String}
    (h : coerceString (some (.str text)) field = .ok s) : PyStr.strip text = s := by
  unfold coerceString at h
  dsimp only at h
  split_ifs at h
  cases h
  rfl

omit [TomlValues] in
theorem readProjectFields_entries
    (h : ∀ s ∈ [name, version, entry, outputDir], s ≠ [] ∧ PyStr.strip s = s) :
    readProjectFields [(points "project", .table (projectEntries name version entry outputDir))] =
      .ok ⟨name, points "python", version, entry, outputDir⟩ := by
  have hcoerce : ∀ s ∈ [name, version, entry, outputDir], ∀ field,
      coerceString (some (.str s)) field = .ok s := by
    intro s hs field
    exact coerceString_str (h s hs).1 (h s hs).2 field
  have hruntime : coerceString (some (.str (points "python"))) "project.runtime" =
      .ok (points "python") := by decide
  have hname := hcoerce name (by simp) "project.name"
  have hversion := hcoerce version (by simp) "project.version"
  have hentry := hcoerce entry (by simp) "project.entry"
  have houtput := hcoerce outputDir (by simp) "project.output_dir"
  show (do
    let name ← coerceString (some (.str name)) "project.name"
    let runtime ← coerceString (some (.str (points "python"))) "project.runtime"
    if runtime ∉ supportedRuntimes then throw (ConfigError.unsupportedRuntime runtime)
    let version ← coerceString (some (.str version)) "project.version"
    let entryValue ← coerceString (some (.str entry)) "project.entry"
    let outputValue ← coerceString (some (.str outputDir)) "project.output_dir"
    return (⟨name, runtime, version, entryValue, outputValue⟩ : ProjectFields)) = _
  rw [hname, hruntime, hversion, hentry, houtput]
  rfl

omit [TomlValues] in
theorem any_projectConfigText :
    (projectConfigText name version entry outputDir).any (fun c ↦ c.IsSurrogate) =
      [name, version, entry, outputDir].any fun s ↦ s.any fun c ↦ c.IsSurrogate := by
  have hpoints : ∀ s, (points s).any (fun c ↦ decide c.IsSurrogate) = false := by
    intro s
    rw [List.any_eq_false]
    intro c hc h
    exact points_not_surrogate s c hc (of_decide_eq_true h)
  unfold projectConfigText hostingComment commentLine hostingHint hostingExample configLine
  simp only [List.any_append, hpoints, Bool.false_or, Bool.or_false, List.any_cons, List.any_nil]

omit [TomlValues] in
theorem writeProjectConfig_ok {file : PyStr} (hne : outputDir ≠ []) :
    writeProjectConfig name entry (some outputDir) version = some file ↔
      projectConfigText name version entry outputDir = file ∧
        ∀ s ∈ [name, version, entry, outputDir], ∀ c ∈ s, ¬c.IsSurrogate := by
  have hany : [name, version, entry, outputDir].any (fun s ↦ s.any fun c ↦ decide c.IsSurrogate) =
      false ↔ ∀ s ∈ [name, version, entry, outputDir], ∀ c ∈ s, ¬c.IsSurrogate := by
    simp only [List.any_eq_false, List.any_eq_true, decide_eq_true_iff, not_exists, not_and]
  unfold writeProjectConfig
  dsimp only
  rw [if_neg hne, any_projectConfigText]
  cases hsurrogate : [name, version, entry, outputDir].any fun s ↦ s.any fun c ↦ c.IsSurrogate with
  | true =>
    rw [if_pos rfl]
    constructor
    · intro h
      cases h
    · rintro ⟨-, h⟩
      rw [hany.mpr h] at hsurrogate
      cases hsurrogate
  | false =>
    rw [if_neg Bool.false_ne_true, Option.some.injEq]
    exact ⟨fun h ↦ ⟨h, hany.mp hsurrogate⟩, fun h ↦ h.1⟩

omit [TomlValues] in
/-- What the strings under the keys of `[project]` are read as. -/
theorem readProjectFields_text {f : ProjectFields} (h : readProjectFields data = .ok f)
    {text : PyStr} :
    (HasText data (points "project") (points "name") text → PyStr.strip text = f.name) ∧
      (HasText data (points "project") (points "version") text → PyStr.strip text = f.version) ∧
      (HasText data (points "project") (points "entry") text →
        PyStr.strip text = f.entryValue) ∧
      (HasText data (points "project") (points "output_dir") text →
        PyStr.strip text = f.outputValue) := by
  obtain ⟨project, python, hproject, hname, hversion, hentry, houtput⟩ := readProjectFields_ok h
  -- the table of the file is the one that is read
  have hlookup : ∀ key, HasText data (points "project") key text →
      project.lookup key = some (.str text) := by
    rintro key ⟨nest, hnest, htext⟩
    rw [hproject, Option.some.injEq, TomlValue.table.injEq] at hnest
    rwa [hnest]
  refine ⟨?_, ?_, ?_, ?_⟩
  · intro htext
    rw [hlookup _ htext] at hname
    exact coerceString_text hname
  · intro htext
    unfold getDefault at hversion
    rw [hlookup _ htext] at hversion
    exact coerceString_text hversion
  · intro htext
    unfold resolveEntryValue entryUnder at hentry
    rw [hlookup _ htext] at hentry
    exact coerceString_text hentry
  · intro htext
    unfold getDefault at houtput
    rw [hlookup _ htext] at houtput
    exact coerceString_text houtput

omit [TomlValues] in
theorem equalsFirst_configLine (hbare : ∀ c ∈ key, isBare c = true) (value rest : PyStr) :
    EqualsFirst (configLine key value ++ rest) := by
  refine ⟨key ++ [charPoint ' ', equals],
    charPoint ' ' :: quote :: (value ++ quote :: newline :: rest), ?_, ?_, by simp⟩
  · rw [configLine_append, List.append_assoc]
    rfl
  · intro hmem
    rcases List.mem_append.mp hmem with hmem | hmem
    · exact absurd (hbare quote hmem) (by decide)
    · exact absurd hmem (by decide)

omit [TomlValues] in
theorem equalsFirst_hostingComment : EqualsFirst hostingComment := by
  refine ⟨hostingComment.takeWhile (· ≠ quote), hostingComment.dropWhile (· ≠ quote),
    List.takeWhile_append_dropWhile.symm, ?_, by decide⟩
  intro hmem
  have hne := List.mem_takeWhile_imp hmem
  simp at hne

omit [TomlValues] in
theorem readText_projectConfigText (name version entry outputDir : PyStr) :
    joinLineEnds (universalNewlines (projectConfigText name version entry outputDir)) =
      projectConfigText (universalNewlines name) (universalNewlines version)
        (universalNewlines entry) (universalNewlines outputDir) := by
  have hself : joinLineEnds (universalNewlines (projectConfigText name version entry outputDir)) =
      universalNewlines (projectConfigText name version entry outputDir) :=
    joinLineEnds_eq_self (return_notMem_newlinesFrom false _)
  rw [hself, universalNewlines_projectConfigText]

/-- The file is read as it was written only if its strings are plain. -/
theorem plain_of_readProjectFields
    (hne : ∀ s ∈ [name, version, entry, outputDir], s ≠ [])
    (hparse : parseProjectConfig (projectConfigText name version entry outputDir) = some data)
    (hread : readProjectFields data =
      .ok ⟨name, points "python", version, entry, outputDir⟩) :
    ∀ s ∈ [name, version, entry, outputDir], ∀ c ∈ s, PlainPoint c := by
  obtain ⟨hbare₁, hne₁⟩ := keys_bare "name" (by simp)
  obtain ⟨hbare₂, hne₂⟩ := keys_bare "runtime" (by simp)
  obtain ⟨hbare₃, hne₃⟩ := keys_bare "version" (by simp)
  obtain ⟨hbare₄, hne₄⟩ := keys_bare "entry" (by simp)
  obtain ⟨hbare₅, hne₅⟩ := keys_bare "output_dir" (by simp)
  unfold parseProjectConfig loads at hparse
  dsimp only at hparse
  rw [readText_projectConfigText] at hparse
  -- line by line: a string that is read back is plain, and then the next line is read
  obtain ⟨-, hname, n, hparse⟩ := plain_of_statements hbare₁ hne₁ (hne name (by simp))
    (equalsFirst_configLine hbare₂ _ _) rfl (readProjectFields_text hread).1 hparse
  cases n with
  | zero => cases hparse
  | succ n =>
    rw [statements_configLine hbare₂ hne₂ python_plain (by decide) rfl] at hparse
    obtain ⟨-, hversion, n, hparse⟩ := plain_of_statements hbare₃ hne₃ (hne version (by simp))
      (equalsFirst_configLine hbare₄ _ _) rfl (readProjectFields_text hread).2.1 hparse
    obtain ⟨-, hentry, n, hparse⟩ := plain_of_statements hbare₄ hne₄ (hne entry (by simp))
      (equalsFirst_configLine hbare₅ _ _) rfl (readProjectFields_text hread).2.2.1 hparse
    obtain ⟨-, houtput, -⟩ := plain_of_statements hbare₅ hne₅ (hne outputDir (by simp))
      equalsFirst_hostingComment rfl (readProjectFields_text hread).2.2.2 hparse
    intro s hs
    simp only [List.mem_cons, List.not_mem_nil, or_false] at hs
    rcases hs with rfl | rfl | rfl | rfl
    · exact hname
    · exact hversion
    · exact hentry
    · exact houtput

/-- The project file is read as it was written if and only if its strings have no quotation mark, no
backslash, no control character other than a tab and no surrogate. -/
theorem projectConfig_roundTrips_iff
    (h : ∀ s ∈ [name, version, entry, outputDir], s ≠ [] ∧ PyStr.strip s = s) :
    RoundTrips name version entry outputDir ↔
      ∀ s ∈ [name, version, entry, outputDir], ∀ c ∈ s, PlainPoint c ∧ ¬c.IsSurrogate := by
  have hne : ∀ s ∈ [name, version, entry, outputDir], s ≠ [] := fun s hs ↦ (h s hs).1
  have houtput : outputDir ≠ [] := hne outputDir (by simp)
  constructor
  · rintro ⟨file, data, project, hwrite, hparse, hread, -, -⟩ s hs c hc
    obtain ⟨rfl, hsurrogate⟩ := (writeProjectConfig_ok houtput).mp hwrite
    exact ⟨plain_of_readProjectFields hne hparse hread s hs c hc, hsurrogate s hs c hc⟩
  · intro hplain
    have hwrite := (writeProjectConfig_ok houtput).mpr
      ⟨rfl, fun s hs c hc ↦ (hplain s hs c hc).2⟩
    have hself : ∀ s ∈ [name, version, entry, outputDir], universalNewlines s = s := by
      intro s hs
      have hreturn : charPoint '\r' ∉ s := by
        intro hmem
        exact absurd (hplain s hs _ hmem).1 (by decide)
      have hnewlines := newlinesFrom_eq_self hreturn []
      rwa [List.append_nil, show newlinesFrom false [] = [] from rfl, List.append_nil] at hnewlines
    refine ⟨_, [(points "project", .table (projectEntries name version entry outputDir))],
      projectEntries name version entry outputDir, hwrite, ?_, readProjectFields_entries h, rfl,
      rfl⟩
    unfold parseProjectConfig loads
    dsimp only
    rw [readText_projectConfigText, hself name (by simp), hself version (by simp),
      hself entry (by simp), hself outputDir (by simp)]
    obtain ⟨n, hn⟩ : ∃ n, (projectConfigText name version entry outputDir).length = n + 9 := by
      refine ⟨(projectConfigText name version entry outputDir).length - 9, ?_⟩
      have hheader : (points "[project]\n").length = 10 := by decide
      unfold projectConfigText
      rw [List.length_append, hheader]
      omega
    rw [hn]
    exact statements_plain (fun s hs ↦ ⟨fun c hc ↦ (hplain s hs c hc).1, hne s hs⟩) n

end Values

end Loading

/-! ## A path of Windows -/

namespace Sample

/-- No text of these samples has a value without quotation marks. -/
scoped instance otherValues : TomlValues where
  other _ := none

/-- `src\tasks.py` -/
def windowsEntry : PyStr := points "src\\tasks.py"

/-- The entry that is read has a tab where the backslash and the letter after it were. -/
theorem windowsEntry_read :
    (writeProjectConfig (points "demo") windowsEntry (some (points "build")) (points "0.1.0")).map
        loadProjectFields =
      some (.ok ⟨points "demo", points "python", points "0.1.0", points "src\tasks.py",
        points "build"⟩) := by
  decide +kernel

end Sample

open Sample in
theorem roundTrips_fails_windowsEntry :
    (∀ s ∈ [points "demo", points "0.1.0", windowsEntry, points "build"],
      s ≠ [] ∧ PyStr.strip s = s) ∧
    ¬RoundTrips (points "demo") (points "0.1.0") windowsEntry (points "build") := by
  refine ⟨by decide, ?_⟩
  rintro ⟨file, data, project, hwrite, hparse, hread, -, -⟩
  have hload := windowsEntry_read
  rw [hwrite, Option.map_some, Option.some.injEq] at hload
  unfold loadProjectFields at hload
  rw [hparse] at hload
  dsimp only at hload
  rw [hread] at hload
  exact absurd hload (by decide)

open Sample in
theorem roundTrips_iff_demo :
    RoundTrips (points "demo") (points "0.1.0") (points "tasks.py") (points "build") ↔
      ∀ s ∈ [points "demo", points "0.1.0", points "tasks.py", points "build"],
        ∀ c ∈ s, Toml.PlainPoint c ∧ ¬c.IsSurrogate :=
  projectConfig_roundTrips_iff (by decide)

end TandemAio
