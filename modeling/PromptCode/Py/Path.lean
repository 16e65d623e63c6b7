import PromptCode.Py.Str

/-!
# Pure POSIX paths

`pathlib.PurePosixPath` reads a string as a root and a list of components,
dropping empty components and single dots.  A component that a directory can
hold is a `Component`; a relative path made of components is read back as
itself.
-/

namespace PromptCode.Py

/-- A name that a POSIX directory can hold. -/
structure IsComponent (p : Str) : Prop where
  ne_nil : p ≠ []
  ne_dot : p ≠ lit "."
  ne_dotdot : p ≠ lit ".."
  no_slash : slash ∉ p
  no_nul : (0 : CodePoint) ∉ p
  encodable : ∀ c ∈ p, isUnencodable c = false

instance : DecidablePred IsComponent := fun p =>
  decidable_of_iff
    (p ≠ [] ∧ p ≠ lit "." ∧ p ≠ lit ".." ∧ slash ∉ p ∧ (0 : CodePoint) ∉ p ∧
      p.all (fun c => !isUnencodable c) = true)
    ⟨fun h => ⟨h.1, h.2.1, h.2.2.1, h.2.2.2.1, h.2.2.2.2.1,
        by simpa using h.2.2.2.2.2⟩,
      fun h => ⟨h.ne_nil, h.ne_dot, h.ne_dotdot, h.no_slash, h.no_nul,
        by simpa using h.encodable⟩⟩

/-- `PurePosixPath`: the root is empty, `/` or `//`. -/
structure PurePath where
  root : Str
  tail : List Str
deriving DecidableEq

/-- `posixpath.splitroot`, without the empty drive. -/
def splitroot (s : Str) : Str × Str :=
  if s.take 1 ≠ lit "/" then ([], s)
  else if (s.drop 1).take 1 ≠ lit "/" ∨ (s.drop 2).take 1 = lit "/" then
    (lit "/", s.drop 1)
  else (s.take 2, s.drop 2)

/-- The parts a path keeps: neither empty nor a single dot. -/
def keptPart (p : Str) : Bool := decide (p ≠ [] ∧ p ≠ lit ".")

/-- `PurePosixPath(s)`. -/
def PurePath.parse (s : Str) : PurePath where
  root := (splitroot s).1
  tail := (split slash (splitroot s).2).filter keptPart

namespace PurePath

def parts (p : PurePath) : List Str :=
  if p.root = [] then p.tail else p.root :: p.tail

def isAbsolute (p : PurePath) : Bool := decide (p.root ≠ [])

/-- `as_posix()` and `str()` of the path. -/
def asPosix (p : PurePath) : Str :=
  if p.root = [] ∧ p.tail = [] then lit "." else p.root ++ join slash p.tail

/-- `path.parents`, nearest first. -/
def parents (p : PurePath) : List PurePath :=
  (List.range p.tail.length).map fun i =>
    { p with tail := p.tail.take (p.tail.length - i - 1) }

end PurePath

theorem keptPart_eq_true_iff {p : Str} :
    keptPart p = true ↔ p ≠ [] ∧ p ≠ lit "." := by
  simp [keptPart]

theorem IsComponent.kept {p : Str} (h : IsComponent p) : keptPart p = true :=
  keptPart_eq_true_iff.mpr ⟨h.ne_nil, h.ne_dot⟩

theorem splitroot_of_head_ne {s : Str} (h : s.head? ≠ some slash) :
    splitroot s = ([], s) := by
  have hslash : lit "/" = [slash] := by decide
  cases s with
  | nil => simp [splitroot, hslash]
  | cons c s =>
      have hc : c ≠ slash := by simpa using h
      simp [splitroot, hslash, hc]

/-- A joined list of components starts with a character of its first one. -/
theorem head_join_ne_slash {comps : List Str}
    (hcomp : ∀ p ∈ comps, IsComponent p) :
    (join slash comps).head? ≠ some slash := by
  cases comps with
  | nil => simp [join]
  | cons p rest =>
      have hp := hcomp p (by simp)
      obtain ⟨c, t, rfl⟩ := List.exists_cons_of_ne_nil hp.ne_nil
      have hc : c ≠ slash := by
        intro h
        exact hp.no_slash (by simp [h])
      cases rest with
      | nil => simpa using hc
      | cons q tail => simpa [join_cons_cons] using hc

theorem join_ne_nil {comps : List Str} (hne : comps ≠ [])
    (hcomp : ∀ p ∈ comps, IsComponent p) : join slash comps ≠ [] := by
  obtain ⟨p, rest, rfl⟩ := List.exists_cons_of_ne_nil hne
  have hp := (hcomp p (by simp)).ne_nil
  cases rest with
  | nil => simpa using hp
  | cons q tail => simp [join_cons_cons]

/-- Reading a joined list of components gives the components back. -/
theorem parse_join {comps : List Str} (hne : comps ≠ [])
    (hcomp : ∀ p ∈ comps, IsComponent p) :
    PurePath.parse (join slash comps) = { root := [], tail := comps } := by
  have hsplit : split slash (join slash comps) = comps :=
    split_join (fun p hp => (hcomp p hp).no_slash) hne
  have hkept : comps.filter keptPart = comps :=
    List.filter_eq_self.mpr fun p hp => (hcomp p hp).kept
  simp [PurePath.parse, splitroot_of_head_ne (head_join_ne_slash hcomp),
    hsplit, hkept]

theorem asPosix_parse_join {comps : List Str} (hne : comps ≠ [])
    (hcomp : ∀ p ∈ comps, IsComponent p) :
    (PurePath.parse (join slash comps)).asPosix = join slash comps := by
  rw [parse_join hne hcomp]
  simp [PurePath.asPosix, hne]

/-- Joining components loses nothing. -/
theorem join_injOn {comps comps' : List Str} (hne : comps ≠ [])
    (hne' : comps' ≠ []) (hcomp : ∀ p ∈ comps, IsComponent p)
    (hcomp' : ∀ p ∈ comps', IsComponent p)
    (h : join slash comps = join slash comps') : comps = comps' := by
  have hsplit := congrArg (split slash) h
  rwa [split_join (fun p hp => (hcomp p hp).no_slash) hne,
    split_join (fun p hp => (hcomp' p hp).no_slash) hne'] at hsplit

end PromptCode.Py
