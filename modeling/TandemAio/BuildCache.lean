import Mathlib.Data.String.Basic
import TandemAio.Artifact

/-!
# `cache.rs` and `compile_with_cache` of the compile engine

The on-disk build cache: artifacts in files that are named by a hash of the request.
-/

open Reasoning

namespace TandemAio

inductive TaskShape
  | compute
  | serve
deriving DecidableEq

/-- `as_str` -/
def TaskShape.asStr : TaskShape → String
  | .compute => "compute"
  | .serve => "serve"

/-- The pairs of a `BTreeMap`: sorted, and at most one for a key. -/
structure CompileOptions where
  values : List (String × String)
  sorted : (values.map Prod.fst).Pairwise (· < ·)
deriving DecidableEq

/-- What to compile.  `source` is what is in `source_dir`. -/
structure CompileRequest (Source : Type) where
  language : String
  source : Source
  entryModule : String
  entryFunction : String
  shape : TaskShape
  options : CompileOptions
deriving DecidableEq

/-- A language backend: a function of the request that returns its bytes through
`finalizeArtifact`. -/
structure CompileBackend [Sha256] (Source : Type) where
  compile : CompileRequest Source → Except CompileError Artifact
  finalized : ∀ request artifact, compile request = .ok artifact →
    finalizeArtifact artifact.bytes = .ok artifact

/-- What a write to the cache directory comes to.  A write that fails may leave the first bytes
of the artifact in the file. -/
inductive Disk
  | writes
  | fails (message : String) (left : Option Nat)

/-- How many bytes of an artifact a write leaves in the file. -/
def Disk.kept : Disk → Option Nat
  | .writes => some maxArtifactBytes
  | .fails _ left => left

/-- One call of `compile_with_cache`: its arguments, whether the toolchain is installed then, and
what becomes of the write, if there is one. -/
structure CompileCall (Source : Type) where
  request : CompileRequest Source
  sourceHash : String
  isAvailable : Bool
  disk : Disk

/-- The files of the cache directory, by the key they are named after. -/
structure BuildCache where
  files : String → Option (List UInt8)

namespace BuildCache

def empty : BuildCache := ⟨fun _ ↦ none⟩

/-- `material` of `key_for`. -/
def material {Source : Type} (request : CompileRequest Source) (sourceHash : String) : String :=
  request.language ++ "\n" ++ request.entryModule ++ "\n" ++ request.entryFunction ++ "\n" ++
    request.shape.asStr ++ "\n" ++
    String.join (request.options.values.map fun (key, value) ↦ key ++ "=" ++ value ++ "\n") ++
    sourceHash

def keyFor [Sha256] {Source : Type} (request : CompileRequest Source) (sourceHash : String) :
    String :=
  hashBytes (material request sourceHash).toUTF8.data.toList

def get [Sha256] (cache : BuildCache) (key : String) : Option Artifact :=
  match cache.files key with
  | none => none
  | some bytes =>
    match validateArtifact bytes maxArtifactBytes with
    | .error _ => none
    | .ok kind => some (.new bytes kind)

/-- What a write of `bytes` leaves in the file; `none` when it leaves the file as it was. -/
def leaves (bytes : List UInt8) : Disk → Option (List UInt8)
  | .writes => some bytes
  | .fails _ left => left.map bytes.take

def put (cache : BuildCache) (disk : Disk) (key : String) (artifact : Artifact) :
    Except CompileError Unit × BuildCache :=
  let cache := match leaves artifact.bytes disk with
    | none => cache
    | some bytes => ⟨Function.update cache.files key (some bytes)⟩
  match disk with
  | .writes => (.ok (), cache)
  | .fails message _ => (.error (.io message), cache)

theorem put_files (cache : BuildCache) (disk : Disk) (key : String) (artifact : Artifact) :
    (cache.put disk key artifact).2.files =
      Function.update cache.files key ((leaves artifact.bytes disk).or (cache.files key)) := by
  unfold put
  cases disk with
  | writes => rfl
  | fails message left => cases left <;> simp [leaves]

/-- An artifact of the backend fits the limit, so `kept` says what becomes of it. -/
theorem leaves_eq {bytes : List UInt8} {disk : Disk} (h : bytes.length ≤ maxArtifactBytes) :
    leaves bytes disk = disk.kept.map bytes.take := by
  cases disk with
  | writes => simp [leaves, Disk.kept, List.take_of_length_le h]
  | fails message left => rfl

end BuildCache

section Material

variable {Source : Type} {c d : CompileCall Source}

def CompileCall.material (c : CompileCall Source) : String :=
  BuildCache.material c.request c.sourceHash

/-- The write of the call, if there is one, leaves a file that reads as an artifact. -/
def CompileCall.stores (c : CompileCall Source) : Prop :=
  c.isAvailable = true ∧ ∃ kept, c.disk.kept = some kept ∧ 8 ≤ kept

/-- The write of the call, if there is one, leaves less than an artifact may have. -/
def CompileCall.cutShort (c : CompileCall Source) : Prop :=
  ∃ kept, c.disk.kept = some kept ∧ kept < maxArtifactBytes

/-- A file that is read again is one that was written in full, for the same request. -/
def Unambiguous (calls : List (CompileCall Source)) : Prop :=
  ∀ before c between d after, calls = before ++ c :: (between ++ d :: after) →
    c.stores → c.material = d.material →
      c.request = d.request ∧
        (c.cutShort → ∃ b ∈ before, b.stores ∧ b.material = c.material)

/-! ## Requests that share a material -/

/-- The lines of the key material: those of each text of the request, of each option as `key=value`,
and of the source hash. -/
def CompileCall.lines (c : CompileCall Source) : List (List Char) :=
  c.request.language.toList.splitOn '\n' ++ (c.request.entryModule.toList.splitOn '\n' ++
    (c.request.entryFunction.toList.splitOn '\n' ++ (c.request.shape.asStr.toList ::
      (c.request.options.values.flatMap (fun (key, value) ↦
        (key.toList ++ '=' :: value.toList).splitOn '\n') ++ c.sourceHash.toList.splitOn '\n'))))


/-- The lines of the options, as characters. -/
def optionLines (values : List (String × String)) : List Char :=
  values.flatMap fun (key, value) ↦ key.toList ++ '=' :: (value.toList ++ ['\n'])

theorem material_toList (c : CompileCall Source) :
    c.material.toList = c.request.language.toList ++ '\n' ::
      (c.request.entryModule.toList ++ '\n' :: (c.request.entryFunction.toList ++ '\n' ::
        (c.request.shape.asStr.toList ++ '\n' ::
          (optionLines c.request.options.values ++ c.sourceHash.toList)))) := by
  unfold CompileCall.material BuildCache.material optionLines
  simp [String.toList_append, String.toList_join, List.flatMap_map]

/-- Two requests share a material exactly if they have the same lines. -/
theorem material_eq_iff : c.material = d.material ↔ c.lines = d.lines := by
  have hoptions : ∀ (values : List (String × String)) (hash : List Char),
      (optionLines values ++ hash).splitOn '\n' = values.flatMap (fun (key, value) ↦
        (key.toList ++ '=' :: value.toList).splitOn '\n') ++ hash.splitOn '\n' := by
    intro values hash
    induction values with
    | nil => rfl
    | cons pair rest ih =>
      have hline : optionLines (pair :: rest) ++ hash =
          (pair.1.toList ++ '=' :: pair.2.toList) ++ '\n' :: (optionLines rest ++ hash) := by
        simp [optionLines]
      rw [hline, List.splitOn_append_cons_self, ih, List.flatMap_cons, List.append_assoc]
  have hlines : ∀ call : CompileCall Source, call.material.toList.splitOn '\n' = call.lines := by
    intro call
    have hshape : call.request.shape.asStr.toList.splitOn '\n' =
        [call.request.shape.asStr.toList] := by
      cases call.request.shape <;> decide
    rw [material_toList, List.splitOn_append_cons_self, List.splitOn_append_cons_self,
      List.splitOn_append_cons_self, List.splitOn_append_cons_self, hshape, hoptions]
    rfl
  rw [← hlines, ← hlines]
  constructor
  · exact fun h ↦ by rw [h]
  · intro h
    have hjoined := congrArg (['\n'].intercalate ·) h
    rw [List.intercalate_splitOn, List.intercalate_splitOn] at hjoined
    exact String.toList_inj.mp hjoined

/-! ## Requests without separators -/

/-- No string of the request has a character that `key_for` separates with. -/
structure CompileCall.Plain (c : CompileCall Source) : Prop where
  language : '\n' ∉ c.request.language.toList
  entryModule : '\n' ∉ c.request.entryModule.toList
  entryFunction : '\n' ∉ c.request.entryFunction.toList
  optionKeys : ∀ pair ∈ c.request.options.values, '=' ∉ pair.1.toList ∧ '\n' ∉ pair.1.toList
  optionValues : ∀ pair ∈ c.request.options.values, '\n' ∉ pair.2.toList
  sourceHash : '\n' ∉ c.sourceHash.toList

theorem optionLines_inj {values values' : List (String × String)} {hash hash' : List Char}
    (hv : ∀ pair ∈ values, '=' ∉ pair.1.toList ∧ '\n' ∉ pair.2.toList)
    (hv' : ∀ pair ∈ values', '=' ∉ pair.1.toList ∧ '\n' ∉ pair.2.toList)
    (hh : '\n' ∉ hash) (hh' : '\n' ∉ hash')
    (h : optionLines values ++ hash = optionLines values' ++ hash') :
    values = values' ∧ hash = hash' := by
  -- a line of the options ends with the separator that a hash does not have
  have hline : ∀ (pair : String × String) (rest : List (String × String)) (tail : List Char),
      optionLines (pair :: rest) ++ tail =
        pair.1.toList ++ '=' :: (pair.2.toList ++ '\n' :: (optionLines rest ++ tail)) := by
    intro pair rest tail
    simp [optionLines]
  induction values generalizing values' with
  | nil =>
    cases values' with
    | nil => exact ⟨rfl, h⟩
    | cons pair rest =>
      have hhash : hash = optionLines (pair :: rest) ++ hash' := h
      rw [hline] at hhash
      exact absurd (by rw [hhash]; simp) hh
  | cons pair rest ih =>
    cases values' with
    | nil =>
      have hhash : optionLines (pair :: rest) ++ hash = hash' := h
      rw [hline] at hhash
      exact absurd (by rw [← hhash]; simp) hh'
    | cons pair' rest' =>
      rw [hline, hline] at h
      obtain ⟨hkey, h⟩ := append_separator_inj (hv pair List.mem_cons_self).1
        (hv' pair' List.mem_cons_self).1 h
      obtain ⟨hvalue, h⟩ := append_separator_inj (hv pair List.mem_cons_self).2
        (hv' pair' List.mem_cons_self).2 h
      obtain ⟨rfl, rfl⟩ := ih (fun p hp ↦ hv p (List.mem_cons_of_mem pair hp))
        (fun p hp ↦ hv' p (List.mem_cons_of_mem pair' hp)) h
      have hpair : pair = pair' :=
        Prod.ext (String.toList_inj.mp hkey) (String.toList_inj.mp hvalue)
      rw [hpair]
      exact ⟨rfl, rfl⟩

/-- The key material of a plain request says everything about it. -/
theorem CompileCall.Plain.material_inj (hc : c.Plain) (hd : d.Plain)
    (h : c.material = d.material) :
    c.sourceHash = d.sourceHash ∧
      (c.request.source = d.request.source → c.request = d.request) := by
  have hlist := congrArg String.toList h
  rw [material_toList, material_toList] at hlist
  obtain ⟨hlanguage, hlist⟩ := append_separator_inj hc.language hd.language hlist
  obtain ⟨hmodule, hlist⟩ := append_separator_inj hc.entryModule hd.entryModule hlist
  obtain ⟨hfunction, hlist⟩ := append_separator_inj hc.entryFunction hd.entryFunction hlist
  have hshapes : ∀ shape : TaskShape, '\n' ∉ shape.asStr.toList := by
    intro shape
    cases shape <;> decide
  obtain ⟨hshape, hlist⟩ := append_separator_inj (hshapes _) (hshapes _) hlist
  have hshape : c.request.shape = d.request.shape := by
    revert hshape
    cases c.request.shape <;> cases d.request.shape <;> simp [TaskShape.asStr]
  obtain ⟨hvalues, hhash⟩ := optionLines_inj
    (fun p hp ↦ ⟨(hc.optionKeys p hp).1, hc.optionValues p hp⟩)
    (fun p hp ↦ ⟨(hd.optionKeys p hp).1, hd.optionValues p hp⟩) hc.sourceHash hd.sourceHash hlist
  refine ⟨String.toList_inj.mp hhash, fun hsource ↦ ?_⟩
  cases hrc : c.request with
  | mk language source entryModule entryFunction shape options =>
    cases hrd : d.request with
    | mk language' source' entryModule' entryFunction' shape' options' =>
      rw [hrc, hrd] at hlanguage hmodule hfunction hshape hvalues hsource
      obtain rfl := String.toList_inj.mp hlanguage
      obtain rfl := String.toList_inj.mp hmodule
      obtain rfl := String.toList_inj.mp hfunction
      dsimp only at hshape hsource hvalues
      subst hshape hsource
      cases options
      cases options'
      subst hvalues
      rfl

end Material

/-! ## Calls -/

section Calls

variable [Sha256] {Source : Type}

def CompileCall.key (c : CompileCall Source) : String := BuildCache.keyFor c.request c.sourceHash

def compileWithCache (backend : CompileBackend Source) (cache : BuildCache)
    (c : CompileCall Source) : Except CompileError Artifact × BuildCache :=
  match cache.get c.key with
  | some hit => (.ok hit, cache)
  | none =>
    if c.isAvailable = false then
      (.error (.backendUnavailable
        ("no working backend for language '" ++ c.request.language ++ "'")), cache)
    else
      match backend.compile c.request with
      | .error error => (.error error, cache)
      | .ok artifact =>
        match cache.put c.disk c.key artifact with
        | (.error error, cache) => (.error error, cache)
        | (.ok (), cache) => (.ok artifact, cache)

/-- The cache after a sequence of calls. -/
def BuildCache.after (backend : CompileBackend Source) (cache : BuildCache)
    (calls : List (CompileCall Source)) : BuildCache :=
  calls.foldl (fun cache c ↦ (compileWithCache backend cache c).2) cache

/-- Every call of a sequence that succeeds returns what the backend compiles from its request. -/
def Transparent (backend : CompileBackend Source) (calls : List (CompileCall Source)) : Prop :=
  ∀ before c after, calls = before ++ c :: after → ∀ artifact,
    (compileWithCache backend (BuildCache.empty.after backend before) c).1 = .ok artifact →
      backend.compile c.request = .ok artifact

/-! ## Single calls -/

variable {backend : CompileBackend Source} {cache : BuildCache} {c d : CompileCall Source}
  {calls : List (CompileCall Source)} {artifact : Artifact}

/-- A key determines its material, as far as the hash has no collisions. -/
theorem CompileCall.key_inj (hash : Function.Injective Sha256.hexdigest) :
    c.key = d.key ↔ c.material = d.material := by
  unfold CompileCall.key BuildCache.keyFor hashBytes
  constructor
  · intro h
    have hbytes := hash h
    rw [Array.toList_inj, ← ByteArray.ext_iff] at hbytes
    exact String.toByteArray_inj.mp hbytes
  · intro h
    have hsame : BuildCache.material c.request c.sourceHash =
        BuildCache.material d.request d.sourceHash := h
    rw [hsame]

namespace BuildCache

theorem get_congr {cache' : BuildCache} {key : String}
    (h : cache'.files key = cache.files key) : cache'.get key = cache.get key := by
  unfold get
  rw [h]

theorem get_of_valid {bytes : List UInt8} {kind : ArtifactKind} {key : String}
    (h : cache.files key = some bytes)
    (hkind : validateArtifact bytes maxArtifactBytes = .ok kind) :
    cache.get key = some (.new bytes kind) := by
  unfold get
  rw [h]
  dsimp only
  rw [hkind]

/-- A file without a whole header is a miss. -/
theorem get_of_short {bytes : List UInt8} {key : String} (h : cache.files key = some bytes)
    (hshort : bytes.length < 8) : cache.get key = none := by
  have herr : validateArtifact bytes maxArtifactBytes =
      .error (.invalidArtifact "wasm binary is too short to have a header") := by
    unfold validateArtifact detectKind
    rw [if_neg (by unfold maxArtifactBytes; omega), if_pos hshort]
  unfold get
  rw [h]
  dsimp only
  rw [herr]

theorem get_put_of_ne {disk : Disk} {key other : String} (h : other ≠ key) :
    (cache.put disk key artifact).2.get other = cache.get other := by
  apply get_congr
  rw [put_files, Function.update_of_ne h]

/-- What a later lookup makes of the file that a write leaves. -/
theorem get_put_self (disk : Disk) (key : String)
    (hfinal : finalizeArtifact artifact.bytes = .ok artifact) :
    (cache.put disk key artifact).2.get key = match disk.kept with
      | none => cache.get key
      | some kept =>
        if kept < 8 then none else some (.new (artifact.bytes.take kept) artifact.kind) := by
  obtain ⟨hvalid, -⟩ := finalizeArtifact_ok.mp hfinal
  obtain ⟨hle, hkind⟩ := validateArtifact_ok.mp hvalid
  have hfiles := put_files cache disk key artifact
  rw [leaves_eq hle] at hfiles
  cases hkept : disk.kept with
  | none =>
    apply get_congr
    rw [hfiles, hkept]
    simp
  | some kept =>
    have hfile : (cache.put disk key artifact).2.files key = some (artifact.bytes.take kept) := by
      rw [hfiles, hkept]
      simp
    dsimp only
    split
    · apply get_of_short hfile
      rw [List.length_take]
      omega
    · apply get_of_valid hfile
      apply validateArtifact_ok.mpr
      refine ⟨?_, ?_⟩
      · rw [List.length_take]
        omega
      · rw [detectKind_take (by omega)]
        exact hkind

end BuildCache

theorem compileWithCache_hit {hit : Artifact} (h : cache.get c.key = some hit) :
    compileWithCache backend cache c = (.ok hit, cache) := by
  unfold compileWithCache
  rw [h]

/-- What a call can do: hit, fail and leave the cache, or compile and write. -/
theorem compileWithCache_cases (backend : CompileBackend Source) (cache : BuildCache)
    (c : CompileCall Source) :
    (∃ hit, cache.get c.key = some hit ∧ compileWithCache backend cache c = (.ok hit, cache)) ∨
    (cache.get c.key = none ∧ (∃ error, compileWithCache backend cache c = (.error error, cache)) ∧
      (c.isAvailable = true → ∀ artifact, backend.compile c.request ≠ .ok artifact)) ∨
    (∃ artifact, cache.get c.key = none ∧ c.isAvailable = true ∧
      backend.compile c.request = .ok artifact ∧
      (∀ result, (compileWithCache backend cache c).1 = .ok result → result = artifact) ∧
      (compileWithCache backend cache c).2 = (cache.put c.disk c.key artifact).2) := by
  cases hget : cache.get c.key with
  | some hit => exact .inl ⟨hit, rfl, compileWithCache_hit hget⟩
  | none =>
    refine .inr ?_
    unfold compileWithCache
    rw [hget]
    by_cases havail : c.isAvailable = false
    · refine .inl ⟨rfl, ⟨_, if_pos havail⟩, fun htrue ↦ ?_⟩
      rw [havail] at htrue
      cases htrue
    · dsimp only
      rw [if_neg havail]
      cases hcompile : backend.compile c.request with
      | error error => exact .inl ⟨rfl, ⟨error, rfl⟩, fun _ artifact h ↦ by cases h⟩
      | ok artifact =>
        refine .inr ⟨artifact, rfl, by simpa using havail, rfl, ?_⟩
        dsimp only
        cases c.disk with
        | writes =>
          refine ⟨fun result h ↦ ?_, rfl⟩
          cases h
          rfl
        | fails message left =>
          refine ⟨fun result h ↦ ?_, rfl⟩
          cases h

/-- Once a key hits, it hits with the same artifact from then on. -/
theorem get_after (backend : CompileBackend Source) (calls : List (CompileCall Source))
    {key : String} (h : cache.get key = some artifact) :
    (cache.after backend calls).get key = some artifact := by
  induction calls generalizing cache with
  | nil => exact h
  | cons c rest ih =>
    apply ih
    show (compileWithCache backend cache c).2.get key = some artifact
    rcases compileWithCache_cases backend cache c with
      ⟨hit, -, hstep⟩ | ⟨-, ⟨error, hstep⟩, -⟩ | ⟨compiled, hmiss, -, -, -, hstep⟩
    · rw [hstep]
      exact h
    · rw [hstep]
      exact h
    · -- a write goes to a key that missed
      have hne : key ≠ c.key := by
        rintro rfl
        rw [hmiss] at h
        cases h
      rw [hstep, BuildCache.get_put_of_ne hne]
      exact h

/-! ## Transparent runs -/

/-- What holds between two calls of an unambiguous sequence: a later hit is the caller's own
artifact, and a call that stores has its artifact in the cache. -/
structure Faithful (backend : CompileBackend Source) (cache : BuildCache)
    (before after : List (CompileCall Source)) : Prop where
  hits : ∀ d ∈ after, ∀ artifact, cache.get d.key = some artifact →
    backend.compile d.request = .ok artifact
  stored : ∀ b ∈ before, b.stores → ∀ artifact, backend.compile b.request = .ok artifact →
    ∃ hit, cache.get b.key = some hit

/-- A call that changes nothing in the cache. -/
theorem Faithful.skip {before after : List (CompileCall Source)}
    (h : Faithful backend cache before (c :: after))
    (hc : c.stores → ∀ artifact, backend.compile c.request = .ok artifact →
      ∃ hit, cache.get c.key = some hit) : Faithful backend cache (before ++ [c]) after where
  hits d hd := h.hits d (List.mem_cons_of_mem c hd)
  stored b hb hstores artifact hok := by
    rcases List.mem_append.mp hb with hb | hb
    · exact h.stored b hb hstores artifact hok
    · rw [List.mem_singleton.mp hb] at hstores hok ⊢
      exact hc hstores artifact hok

/-- What a call stores is its own artifact, whole or damaged beyond use. -/
theorem Faithful.own_hit {before after : List (CompileCall Source)} {compiled : Artifact}
    (hash : Function.Injective Sha256.hexdigest) (h : Faithful backend cache before (c :: after))
    (hsame : ∀ b ∈ before, b.stores → b.material = c.material → b.request = c.request)
    (hmiss : cache.get c.key = none) (havail : c.isAvailable = true)
    (hcompile : backend.compile c.request = .ok compiled)
    (hcut : c.stores → c.cutShort → ∃ b ∈ before, b.stores ∧ b.material = c.material)
    (hget : (cache.put c.disk c.key compiled).2.get c.key = some artifact) :
    c.stores ∧ artifact = compiled := by
  rw [BuildCache.get_put_self c.disk c.key
    (backend.finalized c.request compiled hcompile)] at hget
  cases hkept : c.disk.kept with
  | none =>
    rw [hkept] at hget
    dsimp only at hget
    rw [hmiss] at hget
    cases hget
  | some kept =>
    rw [hkept] at hget
    dsimp only at hget
    by_cases hshort : kept < 8
    · rw [if_pos hshort] at hget
      cases hget
    · have hstores : c.stores := ⟨havail, kept, hkept, by omega⟩
      obtain ⟨hvalid, hnew⟩ :=
        finalizeArtifact_ok.mp (backend.finalized c.request compiled hcompile)
      have hle := (validateArtifact_ok.mp hvalid).1
      by_cases hfull : kept < maxArtifactBytes
      · -- an earlier call has stored the same artifact, and this one hits
        obtain ⟨b, hb, hbstores, hbmaterial⟩ := hcut hstores ⟨kept, hkept, hfull⟩
        have hbok : backend.compile b.request = .ok compiled := by
          rw [hsame b hb hbstores hbmaterial]
          exact hcompile
        obtain ⟨hit, hhit⟩ := h.stored b hb hbstores compiled hbok
        rw [(CompileCall.key_inj hash).mpr hbmaterial, hmiss] at hhit
        cases hhit
      · rw [if_neg hshort, List.take_of_length_le (by omega), ← hnew] at hget
        cases hget
        exact ⟨hstores, rfl⟩

theorem Faithful.step {before after : List (CompileCall Source)}
    (hash : Function.Injective Sha256.hexdigest) (h : Faithful backend cache before (c :: after))
    (hsame : ∀ b ∈ before, b.stores → b.material = c.material → b.request = c.request)
    (hc : ∀ d ∈ after, c.stores → c.material = d.material → c.request = d.request ∧
      (c.cutShort → ∃ b ∈ before, b.stores ∧ b.material = c.material)) :
    Faithful backend (compileWithCache backend cache c).2 (before ++ [c]) after := by
  rcases compileWithCache_cases backend cache c with
    ⟨hit, hget, hstep⟩ | ⟨-, ⟨error, hstep⟩, hfail⟩ | ⟨compiled, hmiss, havail, hcompile, -, hstep⟩
  · rw [hstep]
    exact h.skip fun _ _ _ ↦ ⟨hit, hget⟩
  · rw [hstep]
    exact h.skip fun hstores artifact hok ↦ absurd hok (hfail hstores.1 artifact)
  · rw [hstep]
    constructor
    · intro d hd artifact hget
      by_cases hkey : d.key = c.key
      · have hmaterial : c.material = d.material := ((CompileCall.key_inj hash).mp hkey).symm
        rw [hkey] at hget
        obtain ⟨hstores, rfl⟩ := h.own_hit hash hsame hmiss havail hcompile
          (fun hstores ↦ (hc d hd hstores hmaterial).2) hget
        rw [← (hc d hd hstores hmaterial).1]
        exact hcompile
      · rw [BuildCache.get_put_of_ne hkey] at hget
        exact h.hits d (List.mem_cons_of_mem c hd) artifact hget
    · intro b hb hstores artifact hok
      rcases List.mem_append.mp hb with hb | hb
      · by_cases hkey : b.key = c.key
        · -- the key of an earlier call that stores does not miss
          obtain ⟨hit, hhit⟩ := h.stored b hb hstores artifact hok
          rw [hkey, hmiss] at hhit
          cases hhit
        · rw [BuildCache.get_put_of_ne hkey]
          exact h.stored b hb hstores artifact hok
      · obtain rfl := List.mem_singleton.mp hb
        obtain ⟨-, kept, hkept, height⟩ := hstores
        rw [BuildCache.get_put_self b.disk b.key
          (backend.finalized b.request compiled hcompile), hkept]
        dsimp only
        rw [if_neg (by omega)]
        exact ⟨_, rfl⟩

theorem Unambiguous.faithful (hash : Function.Injective Sha256.hexdigest) (h : Unambiguous calls)
    (backend : CompileBackend Source) (before after : List (CompileCall Source))
    (hcalls : calls = before ++ after) :
    Faithful backend (BuildCache.empty.after backend before) before after := by
  induction before using List.reverseRecOn generalizing after with
  | nil =>
    constructor
    · intro d hd artifact hget
      cases hget
    · intro b hb
      cases hb
  | append_singleton before c ih =>
    have hcalls' : calls = before ++ c :: after := by
      rw [hcalls, List.append_assoc]
      rfl
    have hbefore := ih (c :: after) hcalls'
    unfold BuildCache.after at hbefore ⊢
    rw [List.foldl_append]
    apply hbefore.step hash
    · intro b hb hstores hmaterial
      obtain ⟨before₁, between, rfl⟩ := List.append_of_mem hb
      have hsplit : calls = before₁ ++ b :: (between ++ c :: after) := by
        rw [hcalls', List.append_assoc]
        rfl
      exact (h before₁ b between c after hsplit hstores hmaterial).1
    · intro d hd hstores hmaterial
      obtain ⟨between, after', rfl⟩ := List.append_of_mem hd
      exact h before c between d after' hcalls' hstores hmaterial

theorem Unambiguous.transparent (hash : Function.Injective Sha256.hexdigest)
    (h : Unambiguous calls) (backend : CompileBackend Source) : Transparent backend calls := by
  intro before c after hcalls artifact hok
  have hfaithful := h.faithful hash backend before (c :: after) hcalls
  rcases compileWithCache_cases backend (BuildCache.empty.after backend before) c with
    ⟨hit, hget, hstep⟩ | ⟨-, ⟨error, hstep⟩, -⟩ | ⟨compiled, -, -, hcompile, hresult, -⟩
  · rw [hstep] at hok
    cases hok
    exact hfaithful.hits c List.mem_cons_self _ hget
  · rw [hstep] at hok
    cases hok
  · rw [hresult artifact hok]
    exact hcompile

/-- Over plain requests, and while every write to the directory succeeds, the cache is
transparent. -/
theorem cache_transparent_of_plain (hash : Function.Injective Sha256.hexdigest)
    (hplain : ∀ c ∈ calls, c.Plain) (hwrites : ∀ c ∈ calls, c.disk = .writes)
    (hsource : ∀ c ∈ calls, ∀ d ∈ calls, c.sourceHash = d.sourceHash →
      c.request.source = d.request.source) (backend : CompileBackend Source) :
    Transparent backend calls := by
  apply Unambiguous.transparent hash
  rintro before c between d after rfl - hmaterial
  have hc : c ∈ before ++ c :: (between ++ d :: after) := by simp
  have hd : d ∈ before ++ c :: (between ++ d :: after) := by simp
  obtain ⟨hhash, hrequest⟩ := (hplain c hc).material_inj (hplain d hd) hmaterial
  refine ⟨hrequest (hsource c hc d hd hhash), ?_⟩
  rintro ⟨kept, hkept, hcut⟩
  rw [hwrites c hc] at hkept
  cases hkept
  exact absurd hcut (lt_irrefl _)

/-! ## Ambiguous runs -/

section Ambiguous

/-- A component with `extra` bytes behind its header. -/
def componentBytes (extra : Nat) : List UInt8 :=
  wasmMagic ++ componentVersion ++ List.replicate extra 0

omit [Sha256] in
theorem detectKind_componentBytes (extra : Nat) :
    detectKind (componentBytes extra) = .ok .component := by
  have hheader : detectKind ((componentBytes extra).take 8) = .ok .component := by
    unfold componentBytes
    rw [List.take_left' (by decide)]
    decide
  rw [detectKind_take (by decide)] at hheader
  exact hheader

theorem finalize_componentBytes {extra : Nat} (h : extra + 8 ≤ maxArtifactBytes) :
    finalizeArtifact (componentBytes extra) = .ok (.new (componentBytes extra) .component) := by
  apply finalizeArtifact_ok.mpr
  refine ⟨validateArtifact_ok.mpr ⟨?_, detectKind_componentBytes extra⟩, rfl⟩
  simp only [componentBytes, List.length_append, List.length_replicate, wasmMagic,
    componentVersion, List.length_cons, List.length_nil]
  omega

/-- A backend that compiles `request` to one component and everything else to another. -/
def CompileBackend.telling [DecidableEq Source] (request : CompileRequest Source)
    (extra others : Nat) (h : extra + 8 ≤ maxArtifactBytes) (h' : others + 8 ≤ maxArtifactBytes) :
    CompileBackend Source where
  compile r := finalizeArtifact (componentBytes (if r = request then extra else others))
  finalized r artifact hok := by
    rw [finalize_componentBytes (by split <;> omega)] at hok
    cases hok
    exact finalize_componentBytes (by split <;> omega)

omit [Sha256] in
theorem length_componentBytes (extra : Nat) : (componentBytes extra).length = 8 + extra := by
  simp only [componentBytes, List.length_append, List.length_replicate, wasmMagic,
    componentVersion, List.length_cons, List.length_nil]

theorem telling_compile [DecidableEq Source] (request r : CompileRequest Source)
    {extra others : Nat} (h : extra + 8 ≤ maxArtifactBytes) (h' : others + 8 ≤ maxArtifactBytes) :
    (CompileBackend.telling request extra others h h').compile r =
      .ok (.new (componentBytes (if r = request then extra else others)) .component) :=
  finalize_componentBytes (by split <;> omega)

/-- A key that no call stores under keeps missing. -/
theorem get_after_none {key : String} (h : cache.get key = none)
    (hnever : ∀ b ∈ calls, b.stores → b.key ≠ key) :
    (cache.after backend calls).get key = none := by
  induction calls generalizing cache with
  | nil => exact h
  | cons c rest ih =>
    apply ih _ fun b hb ↦ hnever b (List.mem_cons_of_mem c hb)
    show (compileWithCache backend cache c).2.get key = none
    rcases compileWithCache_cases backend cache c with
      ⟨hit, -, hstep⟩ | ⟨-, ⟨error, hstep⟩, -⟩ | ⟨compiled, -, havail, hcompile, -, hstep⟩
    · rw [hstep]
      exact h
    · rw [hstep]
      exact h
    · rw [hstep]
      by_cases hkey : key = c.key
      · subst hkey
        rw [BuildCache.get_put_self _ _ (backend.finalized c.request compiled hcompile)]
        cases hkept : c.disk.kept with
        | none => exact h
        | some kept =>
          dsimp only
          by_cases hshort : kept < 8
          · rw [if_pos hshort]
          · have hstores : c.stores := ⟨havail, kept, hkept, by omega⟩
            exact absurd rfl (hnever c List.mem_cons_self hstores)
      · rw [BuildCache.get_put_of_ne hkey]
        exact h

/-- A call that stores the smallest artifact stores all of it. -/
theorem get_of_stores (cache : BuildCache) (hstores : c.stores)
    (hcompile : backend.compile c.request = .ok artifact) (hsmall : artifact.bytes.length ≤ 8)
    (hown : ∀ result, (compileWithCache backend cache c).1 = .ok result →
      backend.compile c.request = .ok result) :
    (compileWithCache backend cache c).2.get c.key = some artifact := by
  rcases compileWithCache_cases backend cache c with
    ⟨hit, hget, hstep⟩ | ⟨-, -, hfail⟩ | ⟨compiled, -, -, hcompile', -, hstep⟩
  · rw [hstep] at hown ⊢
    have hhit := hown hit rfl
    rw [hcompile] at hhit
    cases hhit
    exact hget
  · exact absurd hcompile (hfail hstores.1 artifact)
  · rw [hcompile] at hcompile'
    cases hcompile'
    obtain ⟨-, kept, hkept, height⟩ := hstores
    have hfinal := backend.finalized c.request artifact hcompile
    obtain ⟨-, hnew⟩ := finalizeArtifact_ok.mp hfinal
    rw [hstep, BuildCache.get_put_self _ _ hfinal, hkept]
    dsimp only
    rw [if_neg (by omega), List.take_of_length_le (by omega), ← hnew]

/-- The next call under a key that hits returns what was stored there. -/
theorem Transparent.hit {before between after : List (CompileCall Source)}
    (h : Transparent backend calls)
    (hcalls : calls = before ++ c :: (between ++ d :: after)) (hkey : d.key = c.key)
    (hget : (compileWithCache backend (BuildCache.empty.after backend before) c).2.get c.key =
      some artifact) : backend.compile d.request = .ok artifact := by
  have hsplit : calls = (before ++ c :: between) ++ d :: after := by
    rw [hcalls, List.append_assoc]
    rfl
  apply h (before ++ c :: between) d after hsplit
  have hlater := get_after backend between hget
  have hcache : BuildCache.empty.after backend (before ++ c :: between) =
      (compileWithCache backend (BuildCache.empty.after backend before) c).2.after backend
        between := by
    unfold BuildCache.after
    rw [List.foldl_append, List.foldl_cons]
  rw [← hkey] at hlater
  rw [hcache, compileWithCache_hit hlater]

theorem Transparent.unambiguous (hash : Function.Injective Sha256.hexdigest)
    (h : ∀ backend : CompileBackend Source, Transparent backend calls) : Unambiguous calls := by
  classical
  intro before c between d after hcalls hstores hmaterial
  have hkey : d.key = c.key := ((CompileCall.key_inj hash).mpr hmaterial).symm
  have hrequest : c.request = d.request := by
    by_contra hne
    -- the later call gets the smallest component, which is the earlier call's
    have hfits : 0 + 8 ≤ maxArtifactBytes := by decide
    have hfits' : 1 + 8 ≤ maxArtifactBytes := by decide
    let backend := CompileBackend.telling c.request 0 1 hfits hfits'
    have hc : backend.compile c.request = .ok (.new (componentBytes 0) .component) := by
      have hcompile := telling_compile c.request c.request hfits hfits'
      rw [if_pos rfl] at hcompile
      exact hcompile
    have hget := get_of_stores _ hstores hc (length_componentBytes 0).le
      ((h backend) before c _ hcalls)
    have hd := (h backend).hit hcalls hkey hget
    have hd' : backend.compile d.request = .ok (.new (componentBytes 1) .component) := by
      have hcompile := telling_compile c.request d.request hfits hfits'
      rw [if_neg (Ne.symm hne)] at hcompile
      exact hcompile
    rw [hd'] at hd
    have hbytes : (componentBytes 1).length = (componentBytes 0).length :=
      congrArg (fun a ↦ a.bytes.length) (Except.ok.inj hd)
    exact absurd hbytes (by decide)
  refine ⟨hrequest, ?_⟩
  rintro ⟨kept, hkept, hcut⟩
  by_contra hnone
  obtain ⟨havail, kept', hkept', height⟩ := hstores
  rw [hkept] at hkept'
  cases hkept'
  -- the artifact is one byte longer than what the write leaves
  have hfits : kept - 7 + 8 ≤ maxArtifactBytes := by omega
  let backend := CompileBackend.telling c.request (kept - 7) (kept - 7) hfits hfits
  have hcompile : ∀ r, backend.compile r = .ok (.new (componentBytes (kept - 7)) .component) := by
    intro r
    have hr := telling_compile c.request r hfits hfits
    rw [ite_self] at hr
    exact hr
  have hmiss : (BuildCache.empty.after backend before).get c.key = none := by
    apply get_after_none rfl
    intro b hb hbstores hbkey
    exact hnone ⟨b, hb, hbstores, (CompileCall.key_inj hash).mp hbkey⟩
  have hget : (compileWithCache backend (BuildCache.empty.after backend before) c).2.get c.key =
      some (.new ((componentBytes (kept - 7)).take kept) .component) := by
    rcases compileWithCache_cases backend (BuildCache.empty.after backend before) c with
      ⟨hit, hhit, -⟩ | ⟨-, -, hfail⟩ | ⟨compiled, -, -, hcompiled, -, hstep⟩
    · rw [hmiss] at hhit
      cases hhit
    · exact absurd (hcompile c.request) (hfail havail _)
    · rw [hcompile] at hcompiled
      cases hcompiled
      rw [hstep, BuildCache.get_put_self _ _ (backend.finalized c.request _ (hcompile c.request)),
        hkept]
      dsimp only
      rw [if_neg (by omega)]
      rfl
  have hd := (h backend).hit hcalls hkey hget
  rw [hcompile] at hd
  have hbytes : (componentBytes (kept - 7)).length =
      ((componentBytes (kept - 7)).take kept).length :=
    congrArg (fun a ↦ a.bytes.length) (Except.ok.inj hd)
  rw [List.length_take, length_componentBytes] at hbytes
  omega

end Ambiguous

/-- The cache is transparent for every backend exactly when a file that is read again was written
in full and for the same request. -/
theorem cache_transparent_iff (hash : Function.Injective Sha256.hexdigest)
    (calls : List (CompileCall Source)) :
    (∀ backend : CompileBackend Source, Transparent backend calls) ↔ Unambiguous calls :=
  ⟨Transparent.unambiguous hash, fun h backend ↦ h.transparent hash backend⟩

end Calls

/-! ## A pair of option maps that share a key -/

namespace CacheSample

def hexDigit (n : Nat) : Char := if n < 10 then Char.ofNat (48 + n) else Char.ofNat (87 + n)

theorem hexDigit_spec : ∀ n < 16, ((hexDigit n).isDigit || ('a' ≤ hexDigit n && hexDigit n ≤ 'f')) =
    true ∧ ∀ m < 16, hexDigit n = hexDigit m → n = m := by
  decide

/-- A hash without collisions: the bytes in hexadecimal. -/
def hexBytes (data : List UInt8) : List Char :=
  data.flatMap fun b ↦ [hexDigit (b.toNat / 16), hexDigit (b.toNat % 16)]

theorem hexBytes_injective : Function.Injective hexBytes := by
  intro a
  induction a with
  | nil =>
    intro b h
    cases b with
    | nil => rfl
    | cons y b => cases h
  | cons x a ih =>
    intro b h
    cases b with
    | nil => cases h
    | cons y b =>
      have hx := UInt8.toNat_lt x
      have hy := UInt8.toNat_lt y
      unfold hexBytes at h
      rw [List.flatMap_cons, List.flatMap_cons] at h
      obtain ⟨hhigh, h⟩ := List.cons.inj h
      obtain ⟨hlow, h⟩ := List.cons.inj h
      have hhigh := (hexDigit_spec _ (by omega)).2 _ (by omega) hhigh
      have hlow := (hexDigit_spec _ (by omega)).2 _ (by omega) hlow
      have hxy : x = y := by
        apply UInt8.toNat_inj.mp
        omega
      rw [hxy, ih h]

scoped instance hexSha : Sha256 where
  hexdigest data := String.ofList (hexBytes data)
  hex data := by
    rw [String.toList_ofList, List.all_eq_true]
    intro c hc
    obtain ⟨b, -, hb⟩ := List.mem_flatMap.mp hc
    have hlt := UInt8.toNat_lt b
    simp only [List.mem_cons, List.not_mem_nil, or_false] at hb
    rcases hb with rfl | rfl
    · exact (hexDigit_spec _ (by omega)).1
    · exact (hexDigit_spec _ (by omega)).1

theorem hexSha_injective : Function.Injective Sha256.hexdigest := by
  intro a b h
  exact hexBytes_injective (String.ofList_injective h)

def crunch (values : List (String × String))
    (sorted : (values.map Prod.fst).Pairwise (· < ·)) : CompileCall String where
  request :=
    { language := "python"
      source := "def crunch(n): return n"
      entryModule := "app"
      entryFunction := "crunch"
      shape := .compute
      options := ⟨values, sorted⟩ }
  sourceHash := "9c1f"
  isAvailable := true
  disk := .writes

/-- The option `env`, set to `A=1`. -/
def envCall : CompileCall String := crunch [("env", "A=1")] (by decide)

/-- The option `env=A`, set to `1`. -/
def envACall : CompileCall String := crunch [("env=A", "1")] (by decide)

theorem env_material : envCall.material = envACall.material := by
  decide

theorem env_request : envCall.request ≠ envACall.request := by
  decide

/-- The second request is answered with the artifact of the first. -/
theorem cache_confuses_options :
    ¬Transparent (CompileBackend.telling envCall.request 0 1 (by decide) (by decide))
      [envCall, envACall] := by
  intro h
  have hfits : 0 + 8 ≤ maxArtifactBytes := by decide
  have hfits' : 1 + 8 ≤ maxArtifactBytes := by decide
  have hcompile := telling_compile envCall.request envCall.request hfits hfits'
  have hcompile' := telling_compile envCall.request envACall.request hfits hfits'
  rw [if_pos rfl] at hcompile
  rw [if_neg (Ne.symm env_request)] at hcompile'
  have hstores : envCall.stores := ⟨rfl, maxArtifactBytes, rfl, by decide⟩
  have hget := get_of_stores BuildCache.empty hstores hcompile (by decide)
    (h [] envCall [envACall] rfl)
  have hkey : envACall.key = envCall.key :=
    (CompileCall.key_inj hexSha_injective).mpr env_material.symm
  have hcalls : [envCall, envACall] = [] ++ envCall :: ([] ++ envACall :: []) := rfl
  have hhit := h.hit hcalls hkey hget
  rw [hcompile'] at hhit
  have hbytes : (componentBytes 1).length = (componentBytes 0).length :=
    congrArg (fun a ↦ a.bytes.length) (Except.ok.inj hhit)
  exact absurd hbytes (by decide)

/-- A build that is asked for again. -/
theorem cache_transparent_iff_repeated :
    envCall.stores ∧ ∀ backend : CompileBackend String, Transparent backend [envCall, envCall] := by
  refine ⟨⟨rfl, maxArtifactBytes, rfl, by decide⟩, ?_⟩
  apply (cache_transparent_iff hexSha_injective [envCall, envCall]).mpr
  intro before c between d after hcalls _ _
  have hmem : ∀ x ∈ before ++ c :: (between ++ d :: after), x = envCall := by
    rw [← hcalls]
    simp
  obtain rfl := hmem c (by simp)
  obtain rfl := hmem d (by simp)
  refine ⟨rfl, ?_⟩
  rintro ⟨kept, hkept, hcut⟩
  cases hkept
  exact absurd hcut (lt_irrefl _)

end CacheSample

end TandemAio
