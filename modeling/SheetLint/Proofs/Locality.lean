import SheetLint.Proofs.LineEnds

/-!
# Lines stand alone

A line is judged by what stands in it and by nothing else. So what is found in a source is what is
found in its lines one by one, each under its number, and two sources on top of each other are
judged as if each stood alone.
-/

namespace SheetLint

open Text

variable {role : Role} {space : String}

/-- The same violation so many lines further down. -/
def Violation.shift (count : Nat) (v : Violation) : Violation := { v with line := v.line + count }

/-- What is wrong with the line, under the line's number. -/
def Line.violation? (line : Line) (role : Role) (space : String) : Option Violation :=
  (line.fault? role space).map fun fault => ⟨line.number, fault.message⟩

theorem Line.violation?_shift (count : Nat) (line : Line) (role : Role) (space : String) :
    (line.shift count).violation? role space =
      (line.violation? role space).map (Violation.shift count) := by
  have hfault : (line.shift count).fault? role space = line.fault? role space := rfl
  rw [violation?, violation?, hfault, Option.map_map]
  rfl

/-- The number of a line is no part of what is wrong with it. -/
theorem Line.violation?_ofString_iff {number : Nat} {text message : String} :
    (Line.ofString number text).violation? role space = some ⟨number, message⟩ ↔
      (Line.ofString 1 text).violation? role space = some ⟨1, message⟩ := by
  have hfault : (Line.ofString number text).fault? role space =
      (Line.ofString 1 text).fault? role space := rfl
  rw [violation?, violation?, hfault, Option.map_eq_some_iff, Option.map_eq_some_iff]
  simp [Line.ofString]

theorem Line.line_of_violation? {line : Line} {v : Violation}
    (h : line.violation? role space = some v) : v.line = line.number := by
  obtain ⟨fault, -, rfl⟩ := Option.map_eq_some_iff.mp h
  rfl

theorem lintContent_eq (content : String) (role : Role) (space : String) :
    lintContent content role space =
      (scan content).filterMap fun line => line.violation? role space :=
  rfl

theorem lintContent_append (front back : String) (role : Role) (space : String) :
    lintContent (front ++ "\n" ++ back) role space =
      lintContent front role space ++
        (lintContent back role space).map (Violation.shift (1 + front.toList.count '\n')) := by
  simp only [lintContent_eq, scan_append, List.filterMap_append, List.filterMap_map,
    List.map_filterMap, Function.comp_def, Line.violation?_shift]

theorem numbers_scan (content : String) :
    (scan content).map Line.number = List.range' 1 (content.toList.count '\n' + 1) := by
  rw [← numbers_splitLines, scan, List.map_map]
  rfl

theorem scan_sorted (content : String) :
    (scan content).Pairwise fun line next => line.number < next.number := by
  have hnumbers : ((scan content).map Line.number).Pairwise (· < ·) := by
    rw [numbers_scan]
    exact List.pairwise_lt_range' 1
  exact List.pairwise_map.mp hnumbers

theorem lintContent_sorted (content : String) (role : Role) (space : String) :
    (lintContent content role space).Pairwise fun v next => v.line < next.line := by
  refine (scan_sorted content).filterMap _ ?_
  intro line next hlt v hv w hw
  rw [Line.line_of_violation? hv, Line.line_of_violation? hw]
  exact hlt

theorem exists_line_of_mem_lintContent {content : String} {v : Violation}
    (h : v ∈ lintContent content role space) :
    ∃ line ∈ scan content, line.violation? role space = some v ∧ v.line = line.number := by
  obtain ⟨line, hline, hv⟩ := List.mem_filterMap.mp h
  exact ⟨line, hline, hv, Line.line_of_violation? hv⟩

theorem line_mem_range {content : String} {v : Violation}
    (h : v ∈ lintContent content role space) :
    1 ≤ v.line ∧ v.line ≤ 1 + content.toList.count '\n' := by
  obtain ⟨line, hline, -, hnumber⟩ := exists_line_of_mem_lintContent h
  have hmem := List.mem_map_of_mem (f := Line.number) hline
  rw [numbers_scan, List.mem_range'_1] at hmem
  omega

theorem mem_records_iff {first : Nat} {lines : List (List Char)} {line : Line} :
    line ∈ records first lines ↔ ∃ i text, lines[i]? = some text ∧
      line = Line.ofString (first + i) (String.ofList text) := by
  simp only [records, List.mem_map, Prod.exists, List.mk_mem_zipIdx_iff_le_and_getElem?_sub]
  constructor
  · rintro ⟨text, number, ⟨hle, htext⟩, rfl⟩
    exact ⟨number - first, text, htext, by rw [Nat.add_sub_cancel' hle]⟩
  · rintro ⟨i, text, htext, rfl⟩
    exact ⟨text, first + i, ⟨Nat.le_add_right _ _, by rwa [Nat.add_sub_cancel_left]⟩, rfl⟩

/-- What is found in a line is found in no other one. -/
theorem mem_lintContent_iff {content : String} {i : Nat} {text : List Char}
    (h : (split '\n' content.toList)[i]? = some text) (message : String) :
    ⟨i + 1, message⟩ ∈ lintContent content role space ↔
      (Line.ofString 1 (String.ofList text)).violation? role space = some ⟨1, message⟩ := by
  rw [lintContent_eq, List.mem_filterMap, scan_eq_records]
  constructor
  · rintro ⟨line, hline, hv⟩
    obtain ⟨j, other, hother, rfl⟩ := mem_records_iff.mp hline
    have hnumber : i + 1 = 1 + j := Line.line_of_violation? hv
    obtain rfl : i = j := by omega
    cases h.symm.trans hother
    rw [Nat.add_comm 1] at hv
    exact Line.violation?_ofString_iff.mp hv
  · intro hv
    refine ⟨Line.ofString (i + 1) (String.ofList text), ?_, Line.violation?_ofString_iff.mpr hv⟩
    exact mem_records_iff.mpr ⟨i, text, h, by rw [Nat.add_comm]⟩

theorem lintContent_of_line {text : List Char} (h : '\n' ∉ text) :
    lintContent (String.ofList text) role space =
      ((Line.ofString 1 (String.ofList text)).violation? role space).toList := by
  have hscan : scan (String.ofList text) = [Line.ofString 1 (String.ofList text)] := by
    rw [scan_eq_records, String.toList_ofList, split_of_not_mem h]
    rfl
  rw [lintContent_eq, hscan]
  cases hv : (Line.ofString 1 (String.ofList text)).violation? role space <;> simp [hv]

/-- Two sources with a line feed between them are judged one by one, the second one under numbers
that go on from the first one's. In any source the violations stand in the order of the lines, under
numbers of lines that it has and at most one to a number, and a line is told what it is told when
there is no other. -/
theorem lintContent_local (role : Role) (space : String) :
    (∀ front back : String, lintContent (front ++ "\n" ++ back) role space =
      lintContent front role space ++
        (lintContent back role space).map (Violation.shift (1 + front.toList.count '\n'))) ∧
    ∀ content : String,
      ((lintContent content role space).Pairwise fun v next => v.line < next.line) ∧
      (∀ v ∈ lintContent content role space,
        1 ≤ v.line ∧ v.line ≤ 1 + content.toList.count '\n') ∧
      ((lintContent content role space).map Violation.line).Nodup ∧
      ∀ i text, (split '\n' content.toList)[i]? = some text → ∀ message,
        (⟨i + 1, message⟩ ∈ lintContent content role space ↔
          lintContent (String.ofList text) role space = [⟨1, message⟩]) := by
  refine ⟨fun front back => lintContent_append front back role space, fun content => ?_⟩
  have hsorted := lintContent_sorted content role space
  refine ⟨hsorted, fun v hv => line_mem_range hv, ?_, ?_⟩
  · exact List.pairwise_map.mpr (hsorted.imp Nat.ne_of_lt)
  · intro i text htext message
    have hfeed : '\n' ∉ text := not_mem_split (List.mem_of_getElem? htext)
    rw [mem_lintContent_iff htext, lintContent_of_line hfeed, Option.toList_eq_singleton_iff]

/-- The return at the end of the first source becomes part of a line end. -/
theorem lintContent_local_seam :
    lintContent ("$x: 1;\r" ++ "\n" ++ "a\n.b\r") .style "" =
        [⟨1, "define in Config instead"⟩, ⟨3, "class selectors not permitted here"⟩] ∧
      (split '\n' "a\n.b\r".toList)[1]? = some ".b\r".toList ∧
      ⟨2, "class selectors not permitted here"⟩ ∈ lintContent "a\n.b\r" .style "" := by
  obtain ⟨happend, hcontent⟩ := lintContent_local .style ""
  have hline : (split '\n' "a\n.b\r".toList)[1]? = some ".b\r".toList := by decide +kernel
  obtain ⟨-, -, -, halone⟩ := hcontent "a\n.b\r"
  refine ⟨?_, hline, (halone 1 _ hline _).mpr (by decide +kernel)⟩
  rw [happend]
  decide +kernel

end SheetLint
