/-!
# Reports

A report collects what a run found: the violations of each file that has any, the files that could
not be read, and two counts. It grows by one file at a time. The files stand in the order of their
paths, code point by code point, whatever order they were recorded in; the skipped files stand in
the order in which they were skipped.
-/

namespace SheetLint

structure Violation where
  line : Nat
  message : String
deriving DecidableEq, Repr

structure SkippedFile where
  path : String
  reason : String
deriving DecidableEq, Repr

/-- Violations by path, in the order of the paths and with each path once. -/
structure Findings where
  entries : List (String × List Violation)
  sorted : entries.Pairwise fun a b => a.1 < b.1
deriving DecidableEq, Repr

namespace Findings

def empty : Findings := ⟨[], .nil⟩

/-- Put an entry in its place; an entry with the same path makes room for it. -/
def insertEntry (path : String) (violations : List Violation) :
    List (String × List Violation) → List (String × List Violation)
  | [] => [(path, violations)]
  | entry :: rest =>
    if path < entry.1 then (path, violations) :: entry :: rest
    else if path = entry.1 then (path, violations) :: rest
    else entry :: insertEntry path violations rest

theorem mem_insertEntry {path : String} {violations : List Violation}
    {entries : List (String × List Violation)} {entry : String × List Violation}
    (h : entry ∈ insertEntry path violations entries) :
    entry = (path, violations) ∨ entry ∈ entries := by
  induction entries with
  | nil => simpa [insertEntry] using h
  | cons first rest ih =>
    unfold insertEntry at h
    split at h
    · simpa using h
    · split at h
      · rcases List.mem_cons.mp h with h | h
        · exact Or.inl h
        · exact Or.inr (by simp [h])
      · rcases List.mem_cons.mp h with h | h
        · exact Or.inr (by simp [h])
        · rcases ih h with h | h
          · exact Or.inl h
          · exact Or.inr (by simp [h])

theorem insertEntry_sorted (path : String) (violations : List Violation)
    {entries : List (String × List Violation)}
    (sorted : entries.Pairwise fun a b => a.1 < b.1) :
    (insertEntry path violations entries).Pairwise fun a b => a.1 < b.1 := by
  induction entries with
  | nil => simp [insertEntry]
  | cons first rest ih =>
    obtain ⟨hfirst, hrest⟩ := List.pairwise_cons.mp sorted
    unfold insertEntry
    split
    · next hlt =>
      refine List.pairwise_cons.mpr ⟨fun entry he => ?_, sorted⟩
      rcases List.mem_cons.mp he with rfl | he
      · exact hlt
      · exact String.lt_trans hlt (hfirst entry he)
    · next hnlt =>
      split
      · next heq => exact List.pairwise_cons.mpr ⟨fun entry he => heq ▸ hfirst entry he, hrest⟩
      · next hne =>
        refine List.pairwise_cons.mpr ⟨fun entry he => ?_, ih hrest⟩
        rcases mem_insertEntry he with rfl | he
        · rcases String.le_total path first.1 with h | h
          · exact absurd (String.le_antisymm h (String.not_lt.mp hnlt)) hne
          · exact Classical.byContradiction fun hn =>
              hne (String.le_antisymm (String.not_lt.mp hn) h)
        · exact hfirst entry he

def insert (findings : Findings) (path : String) (violations : List Violation) : Findings :=
  ⟨insertEntry path violations findings.entries, insertEntry_sorted path violations findings.sorted⟩

def find? (findings : Findings) (path : String) : Option (List Violation) :=
  findings.entries.lookup path

theorem lookup_insertEntry (path other : String) (violations : List Violation)
    (entries : List (String × List Violation)) :
    (insertEntry path violations entries).lookup other =
      if other = path then some violations else entries.lookup other := by
  induction entries with
  | nil =>
    by_cases h : other = path
    · simp [insertEntry, h]
    · have hb : (other == path) = false := by simp [h]
      simp [insertEntry, List.lookup_cons, hb, h]
  | cons first rest ih =>
    obtain ⟨key, value⟩ := first
    by_cases h : other = path
    · subst h
      unfold insertEntry
      split
      · simp
      · split
        · simp
        · next hne =>
          have hb : (other == key) = false := by simpa using hne
          simp [List.lookup_cons, hb, ih]
    · have hb : (other == path) = false := by simp [h]
      unfold insertEntry
      split
      · simp [List.lookup_cons, hb]
      · split
        · next heq =>
          subst heq
          simp [List.lookup_cons, hb]
        · simp [List.lookup_cons, ih, h]

theorem find?_insert (findings : Findings) (path other : String) (violations : List Violation) :
    (findings.insert path violations).find? other =
      if other = path then some violations else findings.find? other :=
  lookup_insertEntry path other violations findings.entries

theorem mem_entries_iff {findings : Findings} {path : String} {violations : List Violation} :
    (path, violations) ∈ findings.entries ↔ findings.find? path = some violations := by
  rw [find?, List.lookup_eq_some_iff]
  constructor
  · intro hm
    obtain ⟨front, back, hsplit⟩ := List.append_of_mem hm
    have sorted := findings.sorted
    rw [hsplit] at sorted
    refine ⟨front, back, hsplit, fun entry he => ?_⟩
    have hlt : entry.1 < path := (List.pairwise_append.mp sorted).2.2 entry he _ List.mem_cons_self
    have hne : path ≠ entry.1 := fun h => String.lt_irrefl path (h ▸ hlt)
    simpa using hne
  · rintro ⟨front, back, hsplit, -⟩
    simp [hsplit]

end Findings

structure Report where
  files : Findings
  skipped : List SkippedFile
  discovered : Nat
  linted : Nat
deriving DecidableEq, Repr

structure Summary where
  discovered : Nat
  linted : Nat
  skipped : Nat
  filesWithErrors : Nat
  errors : Nat
deriving DecidableEq, Repr

namespace Report

/-- The report before the first of the discovered files. -/
def start (discovered : Nat) : Report := ⟨.empty, [], discovered, 0⟩

/-- Add a linted file. A file without violations is counted and not listed. -/
def record (report : Report) (path : String) (violations : List Violation) : Report :=
  { report with
    linted := report.linted + 1
    files := if violations = [] then report.files else report.files.insert path violations }

/-- Add a file that could not be read. -/
def skip (report : Report) (path reason : String) : Report :=
  { report with skipped := report.skipped ++ [⟨path, reason⟩] }

def errorCount (report : Report) : Nat :=
  report.files.entries.foldr (fun entry count => entry.2.length + count) 0

def filesWithErrors (report : Report) : Nat := report.files.entries.length

def errorsFor (report : Report) (path : String) : List Violation :=
  (report.files.find? path).getD []

def isClean (report : Report) : Bool := report.files.entries.isEmpty && report.skipped.isEmpty

def summary (report : Report) : Summary where
  discovered := report.discovered
  linted := report.linted
  skipped := report.skipped.length
  filesWithErrors := report.filesWithErrors
  errors := report.errorCount

end Report

end SheetLint
