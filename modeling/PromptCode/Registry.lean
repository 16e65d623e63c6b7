import PromptCode.Py.Path

/-!
# Candidate path policy

`registry.py` decides by name which files a candidate may not see (blocked) and
which ones stay as the challenge ships them (frozen).  Both tests read the path
as one string; the file that a path denotes is found elsewhere, by walking its
components.
-/

namespace PromptCode

open Py

/-! ## The policy tables -/

def blockedNameFragments : List Str :=
  [lit "SOLUTION.md", lit "solution.md", lit "_audit_", lit "AUDIT.md",
    lit "interviewer", lit ".reference"]

def frozenBasenames : List Str :=
  [lit "package.json", lit "package-lock.json", lit "yarn.lock",
    lit "pnpm-lock.yaml", lit "npm-shrinkwrap.json", lit ".npmrc",
    lit "pyproject.toml", lit "pytest.ini", lit "setup.cfg", lit "setup.py",
    lit "conftest.py", lit "tox.ini", lit "requirements.txt",
    lit "dockerfile", lit "makefile"]

def frozenSuffixes : List Str :=
  [lit ".test.js", lit ".test.jsx", lit ".test.ts", lit ".test.tsx",
    lit ".spec.js", lit ".spec.jsx", lit ".spec.ts", lit ".spec.tsx"]

/-! ## The two tests -/

/-- `rel_path.replace("\\", "/")`. -/
def replaceBackslash (s : Str) : Str :=
  s.map fun c => if c = backslash then slash else c

/-- The characters `lstrip("./")` removes. -/
def isDotOrSlash (c : CodePoint) : Bool := c == dot || c == slash

/-- Some entry of the table of blocked fragments occurs in the name. -/
def holdsBlockedFragment (name : Str) : Bool :=
  blockedNameFragments.any fun frag => contains (lower frag) (lower name)

def isBlockedPath (relPath : Str) : Bool :=
  let normalized := lstrip isDotOrSlash (replaceBackslash relPath)
  holdsBlockedFragment normalized ||
    decide (lit "solution.md" ∈ split slash (lower normalized))

/-- A folder name that freezes everything below it. -/
def frozenFolder (part : Str) : Bool :=
  decide (part ∈ [lit "node_modules", lit ".venv", lit "venv"]) ||
    decide (part = lit "tests") || decide (part = lit "__tests__")

/-- A file name that freezes the file. -/
def frozenName (name : Str) : Bool :=
  ((lit "test_").isPrefixOf name && (lit ".py").isSuffixOf name) ||
    frozenSuffixes.any (fun suffix => suffix.isSuffixOf name) ||
    decide (name ∈ frozenBasenames) || (lit ".env").isPrefixOf name ||
    (lit ".sh").isSuffixOf name

def isFrozenPath (relPath : Str) : Bool :=
  let normalized := strip (replaceBackslash relPath)
  if normalized = [] ∨ (0 : CodePoint) ∈ normalized then true
  else
    let parts := split slash (lower normalized)
    parts.any frozenFolder || frozenName (parts.getLastD [])

end PromptCode
