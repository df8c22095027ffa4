import TandemAio.BuildCache

/-!
# Damaged cache files

What the build cache returns when writes are cut short and its files are changed from outside.  A
key is a digest in hexadecimal, so that it names a file of the cache directory.
-/

open Reasoning

namespace TandemAio

/-- What happens to the cache directory. -/
inductive CacheEvent
  | put (disk : Disk) (key : String) (artifact : Artifact)
  /-- The file of a key is changed, replaced or removed. -/
  | modify (key : String) (content : Option (List UInt8))

namespace CacheEvent

/-- The directory after an event. -/
def apply (cache : BuildCache) : CacheEvent → BuildCache
  | put disk key artifact => (cache.put disk key artifact).2
  | modify key content => ⟨Function.update cache.files key content⟩

/-- The directory after some events, from when it was empty. -/
def applyAll (events : List CacheEvent) : BuildCache := events.foldl apply .empty

/-- The last artifact whose `put` under the key has completed. -/
def lastPut (key : String) : List CacheEvent → Option Artifact
  | [] => none
  | put .writes key' artifact :: rest =>
    (lastPut key rest).or (if key' = key then some artifact else none)
  | _ :: rest => lastPut key rest

/-- The content that an event other than a completed `put` leaves in the file of a key. -/
def leavesIn (key : String) : CacheEvent → Option (List UInt8)
  | put .writes _ _ => none
  | put (.fails message left) key' artifact =>
    if key' = key then BuildCache.leaves artifact.bytes (.fails message left) else none
  | modify key' content => if key' = key then content else none

/-- Whatever else an event leaves in a file is no artifact, or is what the last completed `put`
has written. -/
def Harmless (before : List CacheEvent) (e : CacheEvent) : Prop :=
  ∀ key bytes, e.leavesIn key = some bytes → Accepted bytes →
    ∃ artifact, lastPut key before = some artifact ∧ artifact.bytes = bytes

end CacheEvent

/-! ## What the header says -/

/-- An artifact is a file within the limit that begins with one of the two headers. -/
theorem accepted_iff {bytes : List UInt8} : Accepted bytes ↔ bytes.length ≤ maxArtifactBytes ∧
    (wasmMagic ++ coreModuleVersion <+: bytes ∨ wasmMagic ++ componentVersion <+: bytes) := by
  constructor
  · rintro ⟨kind, hkind⟩
    obtain ⟨hlength, hdetected⟩ := validateArtifact_ok.mp hkind
    obtain ⟨-, hmagic, hversion⟩ := detectKind_ok hdetected
    have hheader : wasmMagic ++ slice bytes 4 8 = bytes.take 8 := by
      have hfirst : slice bytes 0 4 = (bytes.take 8).take 4 := by
        unfold slice
        rw [List.drop_zero, List.take_take]
        rfl
      rw [← hmagic, hfirst]
      exact List.take_append_drop 4 (bytes.take 8)
    have hprefix : wasmMagic ++ slice bytes 4 8 <+: bytes := hheader ▸ List.take_prefix 8 bytes
    rw [hversion] at hprefix
    cases kind with
    | coreModule => exact ⟨hlength, Or.inl hprefix⟩
    | component => exact ⟨hlength, Or.inr hprefix⟩
  · rintro ⟨hlength, ⟨rest, rfl⟩ | ⟨rest, rfl⟩⟩
    · refine ⟨.coreModule, validateArtifact_ok.mpr ⟨hlength, ?_⟩⟩
      rw [← detectKind_take (le_refl 8)]
      rfl
    · refine ⟨.component, validateArtifact_ok.mpr ⟨hlength, ?_⟩⟩
      rw [← detectKind_take (le_refl 8)]
      rfl

/-- What is rejected: a file over the limit, or one that begins with neither header. -/
theorem validateArtifact_error_iff {bytes : List UInt8} :
    (∃ error, validateArtifact bytes maxArtifactBytes = .error error) ↔
      maxArtifactBytes < bytes.length ∨
        (¬wasmMagic ++ coreModuleVersion <+: bytes ∧ ¬wasmMagic ++ componentVersion <+: bytes) := by
  have hrejected : (∃ error, validateArtifact bytes maxArtifactBytes = .error error) ↔
      ¬Accepted bytes := by
    unfold Accepted
    cases validateArtifact bytes maxArtifactBytes <;> simp
  rw [hrejected, accepted_iff, not_and_or, not_or, not_le]

open CacheEvent

variable {before : List CacheEvent} {e : CacheEvent} {key : String}

/-- Every hit has the bytes of the last artifact whose `put` under the key has completed. -/
def HitsAreWhole [Sha256] (events : List CacheEvent) : Prop :=
  ∀ key hit, (applyAll events).get key = some hit →
    ∃ artifact, lastPut key events = some artifact ∧ hit.bytes = artifact.bytes

theorem applyAll_concat (before : List CacheEvent) (e : CacheEvent) :
    applyAll (before ++ [e]) = e.apply (applyAll before) := by
  unfold applyAll
  rw [List.foldl_append]
  rfl

theorem lastPut_append (key : String) (before after : List CacheEvent) :
    lastPut key (before ++ after) = (lastPut key after).or (lastPut key before) := by
  induction before with
  | nil => exact (Option.or_none).symm
  | cons e rest ih =>
    cases e with
    | modify key' content => exact ih
    | put disk key' artifact =>
      cases disk with
      | writes =>
        rw [List.cons_append, lastPut, lastPut, ih, Option.or_assoc]
      | fails message left => exact ih

/-- A file is read again when it is an artifact. -/
theorem get_bytes [Sha256] {cache : BuildCache} {bytes : List UInt8} :
    (∃ hit, cache.get key = some hit ∧ hit.bytes = bytes) ↔
      cache.files key = some bytes ∧ Accepted bytes := by
  constructor
  · rintro ⟨hit, hget, rfl⟩
    unfold BuildCache.get at hget
    split at hget
    · cases hget
    · rename_i bytes hfile
      split at hget
      · cases hget
      · rename_i kind hkind
        cases hget
        exact ⟨hfile, kind, hkind⟩
  · rintro ⟨hfile, kind, hkind⟩
    exact ⟨_, BuildCache.get_of_valid hfile hkind, rfl⟩

/-- What is in the file of a key after an event. -/
theorem files_apply (cache : BuildCache) (e : CacheEvent) {bytes : List UInt8}
    (h : (e.apply cache).files key = some bytes) :
    (∃ artifact, e = .put .writes key artifact ∧ artifact.bytes = bytes) ∨
      e.leavesIn key = some bytes ∨
        cache.files key = some bytes ∧ ∀ artifact, e ≠ .put .writes key artifact := by
  cases e with
  | modify key' content =>
    rw [show (CacheEvent.apply cache (.modify key' content)).files =
      Function.update cache.files key' content from rfl] at h
    by_cases hkey : key' = key
    · rw [hkey, Function.update_self] at h
      exact Or.inr (Or.inl ((if_pos hkey).trans h))
    · rw [Function.update_of_ne (Ne.symm hkey)] at h
      exact Or.inr (Or.inr ⟨h, fun artifact heq ↦ by cases heq⟩)
  | put disk key' artifact =>
    have hfiles := BuildCache.put_files cache disk key' artifact
    unfold CacheEvent.apply at h
    rw [hfiles] at h
    by_cases hkey : key' = key
    · rw [hkey, Function.update_self] at h
      cases disk with
      | writes =>
        cases h
        rw [hkey]
        exact Or.inl ⟨artifact, rfl, rfl⟩
      | fails message left =>
        rcases Option.or_eq_some_iff.mp h with hleft | ⟨-, hfile⟩
        · exact Or.inr (Or.inl ((if_pos hkey).trans hleft))
        · exact Or.inr (Or.inr ⟨hfile, fun other heq ↦ by cases heq⟩)
    · rw [Function.update_of_ne (Ne.symm hkey)] at h
      refine Or.inr (Or.inr ⟨h, fun other heq ↦ ?_⟩)
      cases heq
      exact hkey rfl

/-- An event that is no completed `put` leaves in the file what it says. -/
theorem files_leavesIn (cache : BuildCache) (e : CacheEvent) {bytes : List UInt8}
    (h : e.leavesIn key = some bytes) :
    (e.apply cache).files key = some bytes ∧ lastPut key [e] = none := by
  cases e with
  | modify key' content =>
    rw [leavesIn] at h
    by_cases hkey : key' = key
    · rw [if_pos hkey] at h
      refine ⟨?_, rfl⟩
      show Function.update cache.files key' content key = some bytes
      rw [hkey, Function.update_self]
      exact h
    · rw [if_neg hkey] at h
      cases h
  | put disk key' artifact =>
    cases disk with
    | writes => cases h
    | fails message left =>
      rw [leavesIn] at h
      by_cases hkey : key' = key
      · rw [if_pos hkey] at h
        refine ⟨?_, rfl⟩
        unfold CacheEvent.apply
        rw [BuildCache.put_files, hkey, Function.update_self, h]
        rfl
      · rw [if_neg hkey] at h
        cases h

/-- The hits are whole throughout exactly when every write that is cut short, and every change
from outside, leaves no artifact but the one of the last completed `put`. -/
theorem hitsAreWhole_iff [Sha256] (events : List CacheEvent) :
    (∀ before after, events = before ++ after → HitsAreWhole before) ↔
      ∀ before e after, events = before ++ e :: after → e.Harmless before := by
  constructor
  · intro h before e after hevents key bytes hleaves haccepted
    obtain ⟨hfile, hnone⟩ := files_leavesIn (applyAll before) e hleaves
    rw [← applyAll_concat] at hfile
    obtain ⟨hit, hget, hbytes⟩ := get_bytes.mpr ⟨hfile, haccepted⟩
    have hwhole := h (before ++ [e]) after (by rw [hevents, List.append_assoc]; rfl)
    obtain ⟨artifact, hlast, hsame⟩ := hwhole key hit hget
    rw [lastPut_append, hnone] at hlast
    exact ⟨artifact, hlast, hsame.symm.trans hbytes⟩
  · intro h before
    induction before using List.reverseRecOn with
    | nil =>
      intro after _ key hit hget
      cases hget
    | append_singleton before e ih =>
      intro after hevents key hit hget
      rw [List.append_assoc, List.singleton_append] at hevents
      obtain ⟨hfile, haccepted⟩ := get_bytes.mp ⟨hit, hget, rfl⟩
      rw [applyAll_concat] at hfile
      rcases files_apply _ e hfile with ⟨artifact, rfl, hbytes⟩ | hleaves | ⟨hfile, hnot⟩
      · refine ⟨artifact, ?_, hbytes.symm⟩
        rw [lastPut_append]
        simp [lastPut]
      · obtain ⟨artifact, hlast, hbytes⟩ := h before e after hevents key _ hleaves haccepted
        refine ⟨artifact, ?_, hbytes.symm⟩
        rw [lastPut_append, (files_leavesIn (applyAll before) e hleaves).2]
        exact hlast
      · obtain ⟨other, hother, hsame⟩ := get_bytes.mpr ⟨hfile, haccepted⟩
        obtain ⟨artifact, hlast, hbytes⟩ := ih (e :: after) hevents key other hother
        refine ⟨artifact, ?_, hsame.symm.trans hbytes⟩
        have hnone : lastPut key [e] = none := by
          cases e with
          | modify key' content => rfl
          | put disk key' artifact' =>
            cases disk with
            | fails message left => rfl
            | writes =>
              have hkey : key' ≠ key := by
                rintro rfl
                exact hnot artifact' rfl
              simp [lastPut, hkey]
        rw [lastPut_append, hnone]
        exact hlast

namespace CacheSample

/-- The header of a component and one byte more. -/
def nineBytes : Artifact := .new [0x00, 0x61, 0x73, 0x6d, 0x0d, 0x00, 0x01, 0x00, 0x2a] .component

/-- A write that is cut short after the header is read as an artifact. -/
theorem cut_write_is_a_hit : ¬∀ events : List CacheEvent, HitsAreWhole events := by
  intro h
  have hget : (applyAll [.put (.fails "interrupted" (some 8)) "key" nineBytes]).get "key" =
      some (.new [0x00, 0x61, 0x73, 0x6d, 0x0d, 0x00, 0x01, 0x00] .component) := by
    apply BuildCache.get_of_valid
    · rfl
    · decide
  obtain ⟨artifact, hlast, -⟩ := h _ _ _ hget
  cases hlast

end CacheSample

end TandemAio
