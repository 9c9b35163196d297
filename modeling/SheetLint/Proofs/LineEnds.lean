import Mathlib.Data.List.Forall2
import Mathlib.Logic.Relation
import SheetLint.Linter

/-!
# Where lines end

A line ends at a line feed. Of the carriage returns in front of it one belongs to the line's end,
and the others stay behind the line and are trimmed away with the other blanks. So the record of a
line is that of the whole piece between two line feeds, and neither the records nor what is found in
them depend on how the lines were ended.
-/

namespace SheetLint

open Text

/-- The piece is the line, perhaps with a carriage return behind it. -/
def Trails (line piece : List Char) : Prop := piece = line ∨ piece = line ++ ['\r']

theorem Trails.cons {line piece : List Char} (h : Trails line piece) (c : Char) :
    Trails (c :: line) (c :: piece) := by
  rcases h with rfl | rfl
  · exact Or.inl rfl
  · exact Or.inr rfl

theorem Trails.trimEnd {line piece : List Char} (h : Trails line piece) :
    trimEnd piece = trimEnd line := by
  have hreturn : AllBlank ['\r'] := by simp [AllBlank, isBlank]
  rcases h with rfl | rfl
  · rfl
  · exact trimEnd_append_blank hreturn line

/-- The lines are the pieces between the line feeds, in their order. No other character ends one. -/
theorem breakLines_trails (cs : List Char) :
    List.Forall₂ Trails ((breakLines cs).1 :: (breakLines cs).2) (split '\n' cs) := by
  fun_induction breakLines cs with
  | case1 => exact .cons (Or.inl rfl) .nil
  | case2 cs ih =>
    -- The return is left in the piece, and is no part of the line.
    have hsplit : split '\n' ('\r' :: '\n' :: cs) = ['\r'] :: split '\n' cs :=
      split_append '\n' ['\r'] cs
    rw [hsplit]
    exact .cons (Or.inr rfl) ih
  | case3 cs ih =>
    have hsplit : split '\n' ('\n' :: cs) = [] :: split '\n' cs := split_append '\n' [] cs
    rw [hsplit]
    exact .cons (Or.inl rfl) ih
  | case4 c cs _ hfeed ih =>
    obtain ⟨hfirst, hrest⟩ := List.forall₂_cons.mp ih
    rw [split_cons_of_ne hfeed]
    exact .cons (hfirst.cons c) hrest

theorem split_trails (cs : List Char) :
    List.Forall₂ Trails (split '\n' cs) (split '\n' (cs ++ ['\r'])) := by
  induction cs with
  | nil => exact .cons (Or.inr rfl) .nil
  | cons c cs ih =>
    by_cases hc : c = '\n'
    · subst hc
      have hsplit : ∀ rest, split '\n' ('\n' :: rest) = [] :: split '\n' rest :=
        split_append '\n' []
      rw [List.cons_append, hsplit, hsplit]
      exact .cons (Or.inl rfl) ih
    · obtain ⟨hfirst, hrest⟩ := List.forall₂_cons.mp ih
      rw [List.cons_append, split_cons_of_ne hc, split_cons_of_ne hc]
      exact .cons (hfirst.cons c) hrest

/-- The records of lines that are numbered from `first` on. -/
def records (first : Nat) (lines : List (List Char)) : List Line :=
  (lines.zipIdx first).map fun (line, number) => Line.ofString number (String.ofList line)

theorem records_cons (first : Nat) (line : List Char) (lines : List (List Char)) :
    records first (line :: lines) =
      Line.ofString first (String.ofList line) :: records (first + 1) lines :=
  rfl

theorem records_append (first : Nat) (front back : List (List Char)) :
    records first (front ++ back) = records first front ++ records (first + front.length) back := by
  simp [records, List.zipIdx_append]

/-- What a line is depends on what is left of it without the blanks at its end. -/
theorem Line.ofString_congr {line other : String}
    (h : trimEnd line.toList = trimEnd other.toList) (number : Nat) :
    Line.ofString number line = Line.ofString number other := by
  simp only [Line.ofString, h]

theorem records_congr {lines pieces : List (List Char)} (h : List.Forall₂ Trails lines pieces)
    (first : Nat) : records first pieces = records first lines := by
  induction h generalizing first with
  | nil => rfl
  | cons hline _ ih =>
    rw [records_cons, records_cons, ih]
    congr 1
    exact Line.ofString_congr (by simpa using hline.trimEnd) first

theorem scan_eq_records (source : String) :
    scan source = records 1 (split '\n' source.toList) := by
  rw [records_congr (breakLines_trails source.toList), scan, splitLines, records, List.map_map]
  rfl

/-- The same line so many lines further down. -/
def Line.shift (count : Nat) (line : Line) : Line := { line with number := line.number + count }

theorem records_add (first count : Nat) (lines : List (List Char)) :
    records (first + count) lines = (records first lines).map (Line.shift count) := by
  induction lines generalizing first with
  | nil => rfl
  | cons line lines ih =>
    rw [records_cons, records_cons, Nat.add_right_comm, ih]
    rfl

/-- The line feed between two sources is all that ties them together. -/
theorem scan_append (front back : String) :
    scan (front ++ "\n" ++ back) =
      scan front ++ (scan back).map (Line.shift (1 + front.toList.count '\n')) := by
  have htext : (front ++ "\n" ++ back).toList = front.toList ++ '\n' :: back.toList := by simp
  rw [scan_eq_records, scan_eq_records, scan_eq_records, htext, split_append, records_append,
    length_split, ← records_add, Nat.add_comm (front.toList.count '\n')]

theorem scan_append_return (source : String) : scan (source ++ "\r") = scan source := by
  have htext : (source ++ "\r").toList = source.toList ++ ['\r'] := by simp
  rw [scan_eq_records, scan_eq_records, htext]
  exact records_congr (split_trails source.toList) 1

/-- The second source has one more carriage return right before one of the line feeds. -/
inductive ReturnAdded : String → String → Prop where
  | before (front back : String) : ReturnAdded (front ++ "\n" ++ back) (front ++ "\r\n" ++ back)

theorem ReturnAdded.scan_eq {source twin : String} (h : ReturnAdded source twin) :
    scan source = scan twin := by
  cases h with
  | before front back =>
    -- Seen from the line feed, the return is the end of the first source.
    have htext : front ++ "\r\n" ++ back = (front ++ "\r") ++ "\n" ++ back := by
      simp [← String.toList_inj]
    have hcount : (front ++ "\r").toList.count '\n' = front.toList.count '\n' := by simp
    rw [htext, scan_append, scan_append, scan_append_return, hcount]

theorem scan_eq_of_eqvGen {source twin : String} (h : Relation.EqvGen ReturnAdded source twin) :
    scan source = scan twin := by
  induction h with
  | rel _ _ h => exact h.scan_eq
  | refl => rfl
  | symm _ _ _ ih => exact ih.symm
  | trans _ _ _ _ _ ih ih' => exact ih.trans ih'

theorem numbers_splitLines (source : String) :
    (splitLines source).map Prod.fst = List.range' 1 (source.toList.count '\n' + 1) := by
  have hlength := (breakLines_trails source.toList).length_eq
  rw [length_split] at hlength
  rw [splitLines, List.map_map, ← hlength]
  exact List.zipIdx_map_snd 1 _

/-- Sources that differ only in how many carriage returns stand before their line feeds have the
same records, and the same is found in them. A line ends nowhere else, since the lines are the
pieces between the line feeds. -/
theorem scan_eq_of_returns :
    (∀ source twin : String, Relation.EqvGen ReturnAdded source twin →
      scan source = scan twin ∧
        ∀ role space, lintContent source role space = lintContent twin role space) ∧
    ∀ source : String,
      (splitLines source).map Prod.fst = List.range' 1 (source.toList.count '\n' + 1) ∧
      List.Forall₂ Trails ((splitLines source).map fun line => line.2.toList)
        (split '\n' source.toList) := by
  constructor
  · intro source twin h
    have hscan := scan_eq_of_eqvGen h
    refine ⟨hscan, fun role space => ?_⟩
    rw [lintContent, lintContent, hscan]
  · intro source
    refine ⟨numbers_splitLines source, ?_⟩
    have hlines : (splitLines source).map (fun line => line.2.toList) =
        (breakLines source.toList).1 :: (breakLines source.toList).2 := by
      simp [splitLines, Function.comp_def]
    rw [hlines]
    exact breakLines_trails source.toList

/-- Before the first line feed two returns are taken out, and before the second one is put in. -/
theorem scan_eq_of_returns_mixed :
    Relation.EqvGen ReturnAdded "$a: 1;\r\r\n.b\n" "$a: 1;\n.b\r\n" ∧
      scan "$a: 1;\r\r\n.b\n" = scan "$a: 1;\n.b\r\n" ∧
      lintContent "$a: 1;\r\r\n.b\n" .style "" =
        [⟨1, "define in Config instead"⟩, ⟨2, "class selectors not permitted here"⟩] := by
  have hfirst : ReturnAdded "$a: 1;\r\n.b\n" "$a: 1;\r\r\n.b\n" := by
    simpa using ReturnAdded.before "$a: 1;\r" ".b\n"
  have hsecond : ReturnAdded "$a: 1;\n.b\n" "$a: 1;\r\n.b\n" := by
    simpa using ReturnAdded.before "$a: 1;" ".b\n"
  have hthird : ReturnAdded "$a: 1;\n.b\n" "$a: 1;\n.b\r\n" := by
    simpa using ReturnAdded.before "$a: 1;\n.b" ""
  have htwins : Relation.EqvGen ReturnAdded "$a: 1;\r\r\n.b\n" "$a: 1;\n.b\r\n" :=
    .trans _ _ _ (.symm _ _ (.rel _ _ hfirst))
      (.trans _ _ _ (.symm _ _ (.rel _ _ hsecond)) (.rel _ _ hthird))
  obtain ⟨hscan, hlint⟩ := scan_eq_of_returns.1 _ _ htwins
  refine ⟨htwins, hscan, ?_⟩
  rw [hlint]
  decide +kernel

end SheetLint
