import Mathlib.Data.List.Sort
import Mathlib.Order.RelClasses
import TandemAio.Filenames
import TandemAio.Framing

/-!
# From marked functions to uploads

`discovery.py` of the SDK, and `manifest.py`, `build.py` and `start_project` of the CLI: the
discovered tasks, the manifest of a build, and the files that the two clients send to `/start/`.
-/

namespace TandemAio

/-- A task option, by what `int()` makes of it: a number, a `TypeError` or `ValueError`, or the
`OverflowError` of an infinite float. -/
inductive OptionValue
  | int (value : Int)
  | unparsable
  | infinite
deriving DecidableEq

/-- `__tandem_kind__`, with the option of it that the server reads; `none` is an option that is
not set. -/
inductive TaskKind
  | compute (timeoutMs : Option OptionValue)
  | split (chunk : Option OptionValue)
deriving DecidableEq

/-- A marked object of the entry module, and what `build_wasm` compiles from it. -/
structure DiscoveredTask where
  exportName : String
  kind : TaskKind
  qualname : String
  /-- The `__module__` and `__name__` that `submit` reads, if the object has a `submit`. -/
  function : Option (String × String)
  wasm : List UInt8
deriving DecidableEq

/-- The order of `tasks.sort(key=lambda task: task.export_name)`. -/
abbrev DiscoveredTask.sortsBefore : DiscoveredTask → DiscoveredTask → Prop :=
  Order.Preimage DiscoveredTask.exportName (· ≤ ·)

/-- `describe_target`. -/
def describeTarget (tasks : List DiscoveredTask) : List DiscoveredTask :=
  tasks.insertionSort DiscoveredTask.sortsBefore

/-! ## The manifest -/

/-- The `split` object of an entry.  `max_shards` is only in manifests of older clients. -/
structure SplitHint where
  strategy : String
  chunk : Option OptionValue
  maxShards : Option OptionValue
deriving DecidableEq

/-- A task of the manifest. -/
structure ManifestEntry where
  name : String
  qualname : String
  wasm : String
  timeoutMs : Option OptionValue
  split : Option SplitHint
deriving DecidableEq

/-- `_split_hint`. -/
def splitHint : TaskKind → Option SplitHint
  | .compute _ => none
  | .split chunk => some ⟨"data_parallel", chunk, none⟩

def DiscoveredTask.wasmPath (task : DiscoveredTask) : String :=
  "tasks/" ++ task.exportName ++ ".wasm"

/-- The entry of a task in `build_manifest`. -/
def DiscoveredTask.entry (task : DiscoveredTask) : ManifestEntry where
  name := task.exportName
  qualname := task.qualname
  wasm := task.wasmPath
  timeoutMs := match task.kind with
    | .compute timeoutMs => timeoutMs
    | .split _ => none
  split := splitHint task.kind

/-- `build_manifest`, the tasks. -/
def buildManifest (tasks : List DiscoveredTask) : List ManifestEntry :=
  (describeTarget tasks).map DiscoveredTask.entry

/-- The files that `build_project` writes under the output directory. -/
def buildProject (tasks : List DiscoveredTask) (path : String) : Option (List UInt8) :=
  ((describeTarget tasks).find? (·.wasmPath = path)).map (·.wasm)

/-! ## The uploads of `start_project` -/

/-- An uploaded file: its name and what is in it. -/
structure Upload where
  filename : String
  payload : List UInt8
deriving DecidableEq

/-- `json.dumps([[], {}]).encode("utf-8")` -/
def startProject.emptyInput : List UInt8 := [0x5b, 0x5b, 0x5d, 0x2c, 0x20, 0x7b, 0x7d, 0x5d]

/-- The `wasm_files` of `start_project`; `none` is an `OverflowError`. -/
def startProject.wasmFiles (tasks : List DiscoveredTask) : Option (List Upload) :=
  (describeTarget tasks).mapM fun task ↦ do
    let framedBlob ← startProject.framedBlob task.wasm startProject.emptyInput
    return ⟨pathName task.wasmPath, framedBlob⟩

/-! ## Order -/

section Order

variable {tasks : List DiscoveredTask} {f g : DiscoveredTask}

instance : IsTrans DiscoveredTask DiscoveredTask.sortsBefore where
  trans _ _ _ h h' := le_trans (α := String) h h'

instance : Std.Total DiscoveredTask.sortsBefore where
  total a b := le_total a.exportName b.exportName

theorem mem_describeTarget : f ∈ describeTarget tasks ↔ f ∈ tasks := List.mem_insertionSort _

theorem describeTarget_perm (tasks : List DiscoveredTask) : (describeTarget tasks).Perm tasks :=
  List.perm_insertionSort _ tasks

/-- Distinct names are strictly sorted. -/
theorem describeTarget_sorted (h : (tasks.map DiscoveredTask.exportName).Nodup) :
    (describeTarget tasks).Pairwise fun a b ↦ a.exportName < b.exportName := by
  have hle : (describeTarget tasks).Pairwise DiscoveredTask.sortsBefore :=
    List.pairwise_insertionSort _ tasks
  have hnodup : ((describeTarget tasks).map DiscoveredTask.exportName).Nodup :=
    ((describeTarget_perm tasks).map _).nodup_iff.mpr h
  have hne := List.pairwise_map.mp hnodup
  exact hle.imp₂ (fun a b hab hne ↦ lt_of_le_of_ne hab hne) hne

/-- Tasks of one name are one task. -/
theorem eq_of_exportName (h : (tasks.map DiscoveredTask.exportName).Nodup) (hf : f ∈ tasks)
    (hg : g ∈ tasks) (hname : f.exportName = g.exportName) : f = g :=
  List.inj_on_of_nodup_map h hf hg hname

theorem DiscoveredTask.wasmPath_inj (h : f.wasmPath = g.wasmPath) : f.exportName = g.exportName := by
  have hlist := congrArg String.toList h
  simp only [DiscoveredTask.wasmPath, String.toList_append] at hlist
  have hname := List.append_cancel_left (List.append_cancel_right hlist)
  exact String.toList_inj.mp hname

/-- Every task's file has the bytes that were compiled for it. -/
theorem buildProject_wasmPath (h : (tasks.map DiscoveredTask.exportName).Nodup) (hf : f ∈ tasks) :
    buildProject tasks f.wasmPath = some f.wasm := by
  unfold buildProject
  cases hfind : (describeTarget tasks).find? (·.wasmPath = f.wasmPath) with
  | none =>
    have hnone := List.find?_eq_none.mp hfind f (mem_describeTarget.mpr hf)
    simp at hnone
  | some g =>
    have hg := mem_describeTarget.mp (List.mem_of_find?_eq_some hfind)
    have hpath : g.wasmPath = f.wasmPath := by simpa using List.find?_some hfind
    have hsame := eq_of_exportName h hg hf (DiscoveredTask.wasmPath_inj hpath)
    rw [hsame]
    rfl

end Order

end TandemAio
