import SheetLint.Proofs.LineEnds

/-!
# Lines put together again

A source can be put together again from its lines if it is known what each of them ended with. Many
ways to take a source apart into lines with their ends have this property, since a line may hold a
line feed, and a return in front of a line feed may count as part of the line. If neither is
allowed, then there is one way only, and it is how the lines are cut.
-/

namespace SheetLint

open Text

inductive LineEnd where
  | feed
  | returnFeed
deriving DecidableEq, Repr

def LineEnd.chars : LineEnd → List Char
  | feed => ['\n']
  | returnFeed => ['\r', '\n']

theorem LineEnd.exists_chars_eq (ending : LineEnd) : ∃ front, ending.chars = front ++ ['\n'] := by
  cases ending with
  | feed => exact ⟨[], rfl⟩
  | returnFeed => exact ⟨['\r'], rfl⟩

/-- The line has no line feed in it and leaves no return to a line feed behind it. -/
structure EndedBy (line : List Char) (ending : LineEnd) : Prop where
  unbroken : '\n' ∉ line
  full : ending = .feed → line.getLast? ≠ some '\r'

theorem endedBy_nil (ending : LineEnd) : EndedBy [] ending :=
  ⟨List.not_mem_nil, by simp⟩

theorem endedBy_cons_iff {line : List Char} {ending : LineEnd} {c : Char} :
    EndedBy (c :: line) ending ↔
      EndedBy line ending ∧ c ≠ '\n' ∧ (line = [] → ending = .feed → c ≠ '\r') := by
  constructor
  · rintro ⟨hunbroken, hfull⟩
    have hfeed : c ≠ '\n' := (List.ne_of_not_mem_cons hunbroken).symm
    have hline : '\n' ∉ line := List.not_mem_of_not_mem_cons hunbroken
    cases line with
    | nil => exact ⟨endedBy_nil ending, hfeed, fun _ hending => by simpa using hfull hending⟩
    | cons d line => exact ⟨⟨hline, by simpa using hfull⟩, hfeed, by simp⟩
  · rintro ⟨⟨hline, hfull⟩, hfeed, hreturn⟩
    refine ⟨List.not_mem_cons_of_ne_of_not_mem hfeed.symm hline, fun hending => ?_⟩
    cases line with
    | nil => simpa using hreturn rfl hending
    | cons d line => simpa using hfull hending

/-- The lines with their ends in a row, and behind them the last line, which has no end. -/
def rejoin : List (List Char × LineEnd) → List Char → List Char
  | [], last => last
  | (line, ending) :: ended, last => line ++ ending.chars ++ rejoin ended last

/-- The source is taken apart into lines with their ends and a last line. -/
structure CutInto (source : List Char) (ended : List (List Char × LineEnd)) (last : List Char) :
    Prop where
  rejoined : rejoin ended last = source
  whole : ∀ line ending, (line, ending) ∈ ended → EndedBy line ending
  unbroken : '\n' ∉ last

variable {source rest line last : List Char} {ended : List (List Char × LineEnd)}
  {ending : LineEnd} {c : Char}

theorem cutInto_nil_iff : CutInto source [] last ↔ source = last ∧ '\n' ∉ last := by
  constructor
  · rintro ⟨rfl, -, hlast⟩
    exact ⟨rfl, hlast⟩
  · rintro ⟨rfl, hlast⟩
    exact ⟨rfl, fun _ _ hmem => absurd hmem List.not_mem_nil, hlast⟩

theorem cutInto_cons_iff :
    CutInto source ((line, ending) :: ended) last ↔
      ∃ rest, source = line ++ ending.chars ++ rest ∧ EndedBy line ending ∧
        CutInto rest ended last := by
  constructor
  · rintro ⟨rfl, hwhole, hlast⟩
    have hrest : ∀ other otherEnd, (other, otherEnd) ∈ ended → EndedBy other otherEnd :=
      fun other otherEnd hmem => hwhole other otherEnd (List.mem_cons_of_mem _ hmem)
    exact ⟨rejoin ended last, rfl, hwhole line ending List.mem_cons_self, rfl, hrest, hlast⟩
  · rintro ⟨rest, rfl, hline, rfl, hwhole, hlast⟩
    refine ⟨rfl, fun other otherEnd hmem => ?_, hlast⟩
    rcases List.mem_cons.mp hmem with heq | hmem
    · obtain ⟨rfl, rfl⟩ := Prod.mk.inj heq
      exact hline
    · exact hwhole other otherEnd hmem

/-- A character in front belongs to the first line. -/
theorem CutInto.exists_front (h : CutInto source ended last) (hfeed : c ≠ '\n')
    (hreturn : ∀ rest, c = '\r' → source ≠ '\n' :: rest) :
    ∃ ended last, CutInto (c :: source) ended last := by
  cases ended with
  | nil =>
    obtain ⟨rfl, hlast⟩ := cutInto_nil_iff.mp h
    have hfront : '\n' ∉ c :: source := List.not_mem_cons_of_ne_of_not_mem hfeed.symm hlast
    exact ⟨[], c :: source, cutInto_nil_iff.mpr ⟨rfl, hfront⟩⟩
  | cons p ended =>
    obtain ⟨line, ending⟩ := p
    obtain ⟨rest, rfl, hline, hrest⟩ := cutInto_cons_iff.mp h
    have hclear : line = [] → ending = .feed → c ≠ '\r' := by
      rintro rfl rfl hc
      exact hreturn rest hc rfl
    have hfront : EndedBy (c :: line) ending := endedBy_cons_iff.mpr ⟨hline, hfeed, hclear⟩
    exact ⟨(c :: line, ending) :: ended, last, cutInto_cons_iff.mpr ⟨rest, rfl, hfront, hrest⟩⟩

/-- Every source can be taken apart. -/
theorem exists_cutInto (source : List Char) : ∃ ended last, CutInto source ended last := by
  fun_induction breakLines source with
  | case1 => exact ⟨[], [], cutInto_nil_iff.mpr ⟨rfl, List.not_mem_nil⟩⟩
  | case2 cs ih =>
    obtain ⟨ended, last, h⟩ := ih
    have hcut := cutInto_cons_iff.mpr ⟨cs, rfl, endedBy_nil .returnFeed, h⟩
    exact ⟨([], .returnFeed) :: ended, last, hcut⟩
  | case3 cs ih =>
    obtain ⟨ended, last, h⟩ := ih
    have hcut := cutInto_cons_iff.mpr ⟨cs, rfl, endedBy_nil .feed, h⟩
    exact ⟨([], .feed) :: ended, last, hcut⟩
  | case4 c cs hreturn hfeed ih =>
    obtain ⟨ended, last, h⟩ := ih
    exact h.exists_front hfeed hreturn

theorem breakLines_cons (hfeed : c ≠ '\n') (hreturn : ∀ rest, c = '\r' → source ≠ '\n' :: rest) :
    breakLines (c :: source) = (c :: (breakLines source).1, (breakLines source).2) := by
  rw [breakLines]
  · exact hreturn
  · exact hfeed

theorem breakLines_of_unbroken (h : '\n' ∉ last) : breakLines last = (last, []) := by
  induction last with
  | nil => rfl
  | cons c last ih =>
    have hlast : '\n' ∉ last := List.not_mem_of_not_mem_cons h
    have hreturn : ∀ rest, c = '\r' → last ≠ '\n' :: rest := by
      rintro rest - rfl
      exact hlast List.mem_cons_self
    rw [breakLines_cons (List.ne_of_not_mem_cons h).symm hreturn, ih hlast]

theorem breakLines_append (h : EndedBy line ending) (rest : List Char) :
    breakLines (line ++ ending.chars ++ rest) =
      (line, (breakLines rest).1 :: (breakLines rest).2) := by
  induction line with
  | nil =>
    cases ending with
    | feed => rfl
    | returnFeed => rfl
  | cons c line ih =>
    obtain ⟨hline, hfeed, hclear⟩ := endedBy_cons_iff.mp h
    -- What stands behind the character begins with a line feed only if the line ends here.
    have hreturn : ∀ behind, c = '\r' → line ++ ending.chars ++ rest ≠ '\n' :: behind := by
      intro behind hc hbehind
      cases line with
      | nil =>
        cases ending with
        | feed => exact hclear rfl rfl hc
        | returnFeed => exact absurd (List.cons.inj hbehind).1 (by decide)
      | cons d line =>
        obtain ⟨rfl, -⟩ := List.cons.inj hbehind
        exact hline.unbroken List.mem_cons_self
    rw [List.cons_append, List.cons_append, breakLines_cons hfeed hreturn, ih hline]

theorem CutInto.lines_eq (h : CutInto source ended last) :
    (breakLines source).1 :: (breakLines source).2 = ended.map Prod.fst ++ [last] := by
  induction ended generalizing source with
  | nil =>
    obtain ⟨rfl, hlast⟩ := cutInto_nil_iff.mp h
    rw [breakLines_of_unbroken hlast]
    rfl
  | cons p ended ih =>
    obtain ⟨line, ending⟩ := p
    obtain ⟨rest, rfl, hline, hrest⟩ := cutInto_cons_iff.mp h
    rw [breakLines_append hline, ih hrest]
    rfl

theorem CutInto.last_eq (h : CutInto source ended last) : last = afterLast '\n' source := by
  induction ended generalizing source with
  | nil =>
    obtain ⟨rfl, hlast⟩ := cutInto_nil_iff.mp h
    rw [afterLast, splitAtLast?_eq_none_iff.mpr hlast]
  | cons p ended ih =>
    obtain ⟨line, ending⟩ := p
    obtain ⟨rest, rfl, -, hrest⟩ := cutInto_cons_iff.mp h
    obtain ⟨front, hfront⟩ := ending.exists_chars_eq
    have hfeed : line ++ ending.chars ++ rest = (line ++ front) ++ '\n' :: rest := by
      simp [hfront]
    rw [hfeed, afterLast_append_cons, ih hrest]

/-- The lines are numbered from 1, and there is one more of them than line feeds. With some ends
they make up the source again, where no line has a line feed in it and none leaves a return to the
line feed behind it, and no other lines do. The last line is all that stands behind the last line
feed: nothing if the source ends with one, and otherwise with the return it may have at its end. -/
theorem splitLines_exact (source : String) :
    let lines := (splitLines source).map fun line => line.2.toList
    let feeds := source.toList.count '\n'
    (splitLines source).map Prod.fst = List.range' 1 (feeds + 1) ∧
    (∃ ended last, CutInto source.toList ended last ∧ ended.length = feeds ∧
      lines = ended.map Prod.fst ++ [last]) ∧
    (∀ ended last, CutInto source.toList ended last → lines = ended.map Prod.fst ++ [last]) ∧
    lines.getLast? = some (afterLast '\n' source.toList) := by
  intro lines feeds
  have hnumbers := numbers_splitLines source
  have hlines : lines = (breakLines source.toList).1 :: (breakLines source.toList).2 := by
    simp [lines, splitLines, Function.comp_def]
  obtain ⟨ended, last, hcut⟩ := exists_cutInto source.toList
  have hended : lines = ended.map Prod.fst ++ [last] := hlines.trans hcut.lines_eq
  refine ⟨hnumbers, ⟨ended, last, hcut, ?_, hended⟩, ?_, ?_⟩
  · have hlength := congrArg List.length hnumbers
    have hcount := congrArg List.length hended
    simp only [lines, List.length_map, List.length_range', List.length_append,
      List.length_singleton] at hlength hcount
    omega
  · intro ended last hcut
    exact hlines.trans hcut.lines_eq
  · rw [hended, List.getLast?_concat, hcut.last_eq]

/-- Of the two returns in front of the first line feed one stays in its line, and the last line
keeps its own. -/
theorem splitLines_exact_returns :
    let source := "// x\r\r\n\n.b\r"
    CutInto source.toList [("// x\r".toList, .returnFeed), ([], .feed)] ".b\r".toList ∧
    (splitLines source).map (fun line => line.2.toList) =
      ["// x\r".toList, [], ".b\r".toList] ∧
    (splitLines source).map Prod.fst = [1, 2, 3] := by
  intro source
  have hcut :
      CutInto source.toList [("// x\r".toList, .returnFeed), ([], .feed)] ".b\r".toList := by
    have hnote : EndedBy "// x\r".toList .returnFeed := ⟨by decide, by decide⟩
    have hlast : CutInto ".b\r".toList [] ".b\r".toList := cutInto_nil_iff.mpr ⟨rfl, by decide⟩
    have hempty : CutInto "\n.b\r".toList [([], .feed)] ".b\r".toList :=
      cutInto_cons_iff.mpr ⟨_, by decide, endedBy_nil .feed, hlast⟩
    exact cutInto_cons_iff.mpr ⟨_, by decide, hnote, hempty⟩
  obtain ⟨hnumbers, -, hlines, -⟩ := splitLines_exact source
  exact ⟨hcut, hlines _ _ hcut, hnumbers.trans (by decide)⟩

end SheetLint
