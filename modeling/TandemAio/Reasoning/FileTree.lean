import Mathlib.Data.List.Infix
import Mathlib.Logic.Function.Basic
import Mathlib.Tactic.Common

/-!
# Directory trees and paths

A tree of files and directories without links, and paths that are resolved by their parts alone.
-/

namespace Reasoning

inductive FsNode (γ : Type)
  | file (content : γ)
  | directory
deriving DecidableEq

def FsNode.isFile {γ : Type} : FsNode γ → Bool
  | .file _ => true
  | .directory => false

/-- What stands under each path from the root; only directories have anything under them. -/
structure FileTree (ν γ : Type) where
  node : List ν → Option (FsNode γ)
  root : node [] = some .directory
  parent : ∀ p c, node (p ++ [c]) ≠ none → node p = some .directory

namespace FileTree

variable {ν γ : Type}

/-- Whatever stands above a node is a directory. -/
theorem node_of_prefix (t : FileTree ν γ) {p q : List ν} (hpre : p <+: q) (hne : p ≠ q)
    (hq : t.node q ≠ none) : t.node p = some .directory := by
  obtain ⟨rest, rfl⟩ := hpre
  induction rest using List.reverseRecOn with
  | nil => exact absurd (List.append_nil p).symm hne
  | append_singleton rest c ih =>
    rw [← List.append_assoc] at hq
    have hdirectory := t.parent (p ++ rest) c hq
    cases rest with
    | nil => rwa [List.append_nil] at hdirectory
    | cons d rest =>
      refine ih ?_ ?_
      · intro heq
        have hlength := congrArg List.length heq
        rw [List.length_append, List.length_cons] at hlength
        omega
      · rw [hdirectory]
        exact Option.some_ne_none _

variable [DecidableEq ν]

/-- The tree without what stands at a path and below it; the root itself stays. -/
def removeTree (t : FileTree ν γ) (p : List ν) : FileTree ν γ where
  node q := if p <+: q ∧ q ≠ [] then none else t.node q
  root := by
    rw [if_neg fun h ↦ h.2 rfl]
    exact t.root
  parent := by
    intro q c hq
    by_cases hbelow : p <+: q ++ [c] ∧ q ++ [c] ≠ []
    · rw [if_pos hbelow] at hq
      exact absurd rfl hq
    · have hnot : ¬(p <+: q ∧ q ≠ []) :=
        fun h ↦ hbelow ⟨h.1.trans (List.prefix_append q [c]), by simp⟩
      rw [if_neg hbelow] at hq
      rw [if_neg hnot]
      exact t.parent q c hq

theorem removeTree_below (t : FileTree ν γ) {p q : List ν} (h : p <+: q) (hq : q ≠ []) :
    (t.removeTree p).node q = none := if_pos ⟨h, hq⟩

theorem removeTree_apart (t : FileTree ν γ) {p q : List ν} (h : ¬p <+: q) :
    (t.removeTree p).node q = t.node q := if_neg fun hbelow ↦ h hbelow.1

/-- Whether a file stands at a path or above it. -/
def blocked (t : FileTree ν γ) (p : List ν) : Bool :=
  p.inits.any fun q ↦ (t.node q).any FsNode.isFile

/-- The tree with a directory at a path and at all that stands above it. -/
def withDirs (t : FileTree ν γ) (p : List ν) : FileTree ν γ where
  node q := if q <+: p then some .directory else t.node q
  root := if_pos List.nil_prefix
  parent := by
    intro q c hq
    by_cases hpre : q <+: p
    · exact if_pos hpre
    · have hnot : ¬q ++ [c] <+: p := fun h ↦ hpre ((List.prefix_append q [c]).trans h)
      rw [if_neg hnot] at hq
      rw [if_neg hpre]
      exact t.parent q c hq

/-- The tree with a file at a path, in a directory. -/
def writeFile (t : FileTree ν γ) (p : List ν) (content : γ)
    (hparent : t.node p.dropLast = some .directory) (hp : t.node p ≠ some .directory) :
    FileTree ν γ where
  node := Function.update t.node p (some (.file content))
  root := by
    have hne : [] ≠ p := by
      rintro rfl
      exact hp t.root
    rw [Function.update_of_ne hne]
    exact t.root
  parent := by
    intro q c hq
    -- the path has nothing below it, and its parent is a directory
    have hqp : q ≠ p := by
      rintro rfl
      have hne : q ++ [c] ≠ q := by simp
      rw [Function.update_of_ne hne] at hq
      exact hp (t.parent q c hq)
    rw [Function.update_of_ne hqp]
    by_cases hchild : q ++ [c] = p
    · rwa [← hchild, List.dropLast_concat] at hparent
    · rw [Function.update_of_ne hchild] at hq
      exact t.parent q c hq

end FileTree

/-! ## Paths -/

/-- A part of a path: `..` or a name. -/
inductive PathPart (ν : Type)
  | up
  | name (name : ν)
deriving DecidableEq

section Paths

variable {ν : Type}

/-- Where a path leads from a directory; the root is its own parent. -/
def walkPath : List ν → List (PathPart ν) → List ν
  | base, [] => base
  | base, .up :: parts => walkPath base.dropLast parts
  | base, .name name :: parts => walkPath (base ++ [name]) parts

/-- A path whose steps upwards all come first. -/
structure NormalPath (ν : Type) where
  ups : Nat
  names : List ν

namespace NormalPath

def push (n : NormalPath ν) : PathPart ν → NormalPath ν
  | .up => if n.names.isEmpty then ⟨n.ups + 1, []⟩ else ⟨n.ups, n.names.dropLast⟩
  | .name name => ⟨n.ups, n.names ++ [name]⟩

/-- Where the path leads. -/
def leads (n : NormalPath ν) (base : List ν) : List ν := base.take (base.length - n.ups) ++ n.names

theorem push_leads (n : NormalPath ν) (base : List ν) (part : PathPart ν) :
    (n.push part).leads base = walkPath (n.leads base) [part] := by
  cases part with
  | name name =>
    show base.take (base.length - n.ups) ++ (n.names ++ [name]) =
      base.take (base.length - n.ups) ++ n.names ++ [name]
    rw [List.append_assoc]
  | up =>
    show (n.push .up).leads base = (base.take (base.length - n.ups) ++ n.names).dropLast
    unfold push leads
    dsimp only
    cases hnames : n.names using List.reverseRecOn with
    | nil =>
      simp only [List.isEmpty_nil, if_true, List.append_nil]
      rw [List.dropLast_eq_take, List.length_take, List.take_take]
      congr 1
      omega
    | append_singleton names name _ =>
      rw [if_neg (by simp), List.dropLast_concat, ← List.append_assoc, List.dropLast_concat]

end NormalPath

def normalize (parts : List (PathPart ν)) : NormalPath ν := parts.foldl NormalPath.push ⟨0, []⟩

/-- A path leads where its normal form does. -/
theorem walkPath_eq_normalize (base : List ν) (parts : List (PathPart ν)) :
    walkPath base parts = (normalize parts).leads base := by
  have hgeneral : ∀ (parts : List (PathPart ν)) (n : NormalPath ν),
      walkPath (n.leads base) parts = (parts.foldl NormalPath.push n).leads base := by
    intro parts
    induction parts with
    | nil =>
      intro n
      rfl
    | cons part parts ih =>
      intro n
      rw [List.foldl_cons, ← ih, NormalPath.push_leads]
      cases part <;> rfl
  have hstart : (⟨0, []⟩ : NormalPath ν).leads base = base := by
    show base.take (base.length - 0) ++ [] = base
    rw [Nat.sub_zero, List.take_length, List.append_nil]
  have hwalk := hgeneral parts ⟨0, []⟩
  rwa [hstart] at hwalk

/-- A path leads to a directory or above it if and only if what its steps upwards have left of the
start stands above the directory, and its names go on the way to it. -/
theorem walkPath_prefix_iff (base dir : List ν) (parts : List (PathPart ν)) :
    walkPath base parts <+: dir ↔
      base.take (base.length - (normalize parts).ups) <+: dir ∧
        (normalize parts).names <+: dir.drop (base.length - (normalize parts).ups) := by
  have hlength : (base.take (base.length - (normalize parts).ups)).length =
      base.length - (normalize parts).ups := by
    rw [List.length_take]
    omega
  rw [walkPath_eq_normalize, NormalPath.leads]
  constructor
  · rintro ⟨rest, hdir⟩
    rw [List.append_assoc] at hdir
    refine ⟨⟨_, hdir⟩, rest, ?_⟩
    rw [← hdir, List.drop_left' hlength]
  · rintro ⟨⟨below, rfl⟩, hnames⟩
    rw [List.drop_left' hlength] at hnames
    exact (List.prefix_append_right_inj _).mpr hnames

end Paths

end Reasoning
