import SheetLint.Display

/-!
# Colours and columns

The coloured form of a report is its plain form with sequences in it: where they are deleted, the
plain form is left. In the block of a file the line numbers end in one column and the messages start
in one column, whatever the numbers are.
-/

namespace SheetLint

open SheetLint.Span

def isCode (c : Char) : Bool := c.isDigit || c == ';'

/-- What stands behind the sequence that the text starts with. -/
def afterSequence? : List Char → Option (List Char)
  | '\x1b' :: '[' :: cs =>
    match cs.dropWhile isCode with
    | 'm' :: rest => some rest
    | _ => none
  | _ => none

theorem afterSequence?_eq_some_iff {cs rest : List Char} :
    afterSequence? cs = some rest ↔
      ∃ codes, (∀ c ∈ codes, isCode c = true) ∧ cs = '\x1b' :: '[' :: (codes ++ 'm' :: rest) := by
  constructor
  · intro h
    unfold afterSequence? at h
    split at h
    · next cs =>
      split at h
      · next behind hbehind =>
        cases h
        refine ⟨cs.takeWhile isCode, List.all_eq_true.mp List.all_takeWhile, ?_⟩
        rw [← hbehind, List.takeWhile_append_dropWhile]
      · contradiction
    · contradiction
  · rintro ⟨codes, hcodes, rfl⟩
    have hdrop : (codes ++ 'm' :: rest).dropWhile isCode = 'm' :: rest := by
      rw [List.dropWhile_append_of_pos hcodes]
      rfl
    simp [afterSequence?, hdrop]

theorem length_of_afterSequence? {cs rest : List Char} (h : afterSequence? cs = some rest) :
    rest.length < cs.length := by
  obtain ⟨codes, -, rfl⟩ := afterSequence?_eq_some_iff.mp h
  simp only [List.length_cons, List.length_append]
  omega

/-- The text without its sequences. An escape that does not start a whole sequence stays. -/
def uncolour : List Char → List Char
  | [] => []
  | c :: cs =>
    match h : afterSequence? (c :: cs) with
    | some rest =>
      have := length_of_afterSequence? h
      uncolour rest
    | none => c :: uncolour cs
termination_by cs => cs.length
decreasing_by
  · assumption
  · exact Nat.lt_succ_self _

@[simp]
theorem uncolour_nil : uncolour [] = [] := by
  rw [uncolour]

theorem uncolour_of_afterSequence? {cs rest : List Char} (h : afterSequence? cs = some rest) :
    uncolour cs = uncolour rest := by
  cases cs with
  | nil => contradiction
  | cons c cs =>
    rw [uncolour]
    split
    · next hsome =>
      cases h.symm.trans hsome
      rfl
    · next hnone =>
      rw [h] at hnone
      contradiction

theorem uncolour_cons_of_ne {c : Char} (h : c ≠ escape) (cs : List Char) :
    uncolour (c :: cs) = c :: uncolour cs := by
  rw [uncolour]
  split
  · next hsome =>
    obtain ⟨codes, -, hsequence⟩ := afterSequence?_eq_some_iff.mp hsome
    exact absurd (List.cons.inj hsequence).1 h
  · rfl

theorem uncolour_append_of_notMem {text : List Char} (h : escape ∉ text) (rest : List Char) :
    uncolour (text ++ rest) = text ++ uncolour rest := by
  induction text with
  | nil => rfl
  | cons c cs ih =>
    rw [List.mem_cons, not_or] at h
    obtain ⟨hc, hcs⟩ := h
    rw [List.cons_append, uncolour_cons_of_ne (Ne.symm hc), ih hcs, List.cons_append]

theorem notMem_toDigits {c : Char} (h : c.isDigit = false) (n : Nat) : c ∉ Nat.toDigits 10 n := by
  intro hmem
  rw [Nat.isDigit_of_mem_toDigits (by decide) (by decide) hmem] at h
  contradiction

theorem isCode_of_mem_toDigits {c : Char} {n : Nat} (h : c ∈ Nat.toDigits 10 n) :
    isCode c = true := by
  rw [isCode, Nat.isDigit_of_mem_toDigits (by decide) (by decide) h, Bool.true_or]

theorem isCode_of_mem_intercalate {codes : List Nat} {c : Char}
    (h : c ∈ List.intercalate [';'] (codes.map (Nat.toDigits 10))) : isCode c = true := by
  induction codes with
  | nil => simp at h
  | cons code codes ih =>
    cases codes with
    | nil => exact isCode_of_mem_toDigits (by simpa using h)
    | cons next codes =>
      rw [List.map_cons, List.map_cons, List.intercalate_cons_cons, ← List.map_cons,
        List.mem_append, List.mem_append] at h
      rcases h with (h | h) | h
      · exact isCode_of_mem_toDigits h
      · rw [List.mem_singleton.mp h]
        rfl
      · exact ih h

theorem uncolour_switch (codes : List Nat) (rest : List Char) :
    uncolour (switch codes ++ rest) = uncolour rest := by
  refine uncolour_of_afterSequence? (afterSequence?_eq_some_iff.mpr
    ⟨List.intercalate [';'] (codes.map (Nat.toDigits 10)),
      fun c hc => isCode_of_mem_intercalate hc, ?_⟩)
  simp [switch, escape]

theorem uncolour_flatMap_switch (style : List (List Nat)) (rest : List Char) :
    uncolour (style.flatMap switch ++ rest) = uncolour rest := by
  induction style with
  | nil => rfl
  | cons codes style ih => rw [List.flatMap_cons, List.append_assoc, uncolour_switch, ih]

/-- A text without an escape has nothing in it that switches a style off. -/
theorem restyle_of_notMem (style : List Char) {text : List Char} (h : escape ∉ text) :
    restyle style text = text := by
  induction text with
  | nil => rfl
  | cons c cs ih =>
    rw [List.mem_cons, not_or] at h
    obtain ⟨hc, hcs⟩ := h
    unfold restyle
    split
    · next heq => exact absurd (List.cons.inj heq).1.symm hc
    · next heq =>
      cases heq
      rw [ih hcs]
    · contradiction

/-- No text in the lines has an escape in it. -/
def Unescaped (lines : List (List Span)) : Prop :=
  ∀ line ∈ lines, ∀ span ∈ line, escape ∉ span.text

theorem uncolour_paint (coloured : Bool) {span : Span} (h : escape ∉ span.text)
    (rest : List Char) :
    uncolour (span.paint coloured ++ rest) = span.paint false ++ uncolour rest := by
  have hplain : span.paint false = span.text := rfl
  rw [hplain, paint]
  split
  · simp only [restyle_of_notMem _ h, List.append_assoc]
    rw [uncolour_flatMap_switch, uncolour_append_of_notMem h, reset, uncolour_switch]
  · exact uncolour_append_of_notMem h rest

theorem uncolour_flatMap_paint (coloured : Bool) {line : List Span}
    (h : ∀ span ∈ line, escape ∉ span.text) (rest : List Char) :
    uncolour (line.flatMap (paint coloured) ++ rest) =
      line.flatMap (paint false) ++ uncolour rest := by
  induction line with
  | nil => rfl
  | cons span line ih =>
    obtain ⟨hspan, hline⟩ := List.forall_mem_cons.mp h
    rw [List.flatMap_cons, List.append_assoc, uncolour_paint coloured hspan, ih hline,
      List.flatMap_cons, List.append_assoc]

theorem paintLines_cons (coloured : Bool) (line : List Span) (lines : List (List Span)) :
    paintLines coloured (line :: lines) =
      line.flatMap (paint coloured) ++ '\n' :: paintLines coloured lines := by
  simp [paintLines]

theorem paintLines_append (coloured : Bool) (lines others : List (List Span)) :
    paintLines coloured (lines ++ others) =
      paintLines coloured lines ++ paintLines coloured others :=
  List.flatMap_append

theorem uncolour_paintLines (coloured : Bool) {lines : List (List Span)} (h : Unescaped lines) :
    uncolour (paintLines coloured lines) = paintLines false lines := by
  induction lines with
  | nil => exact uncolour_nil
  | cons line lines ih =>
    obtain ⟨hline, hlines⟩ := List.forall_mem_cons.mp h
    rw [paintLines_cons, uncolour_flatMap_paint coloured hline,
      uncolour_cons_of_ne (by decide), ih hlines, paintLines_cons]

namespace Report

/-- No path, message or reason has an escape in it. -/
structure EscapeFree (report : Report) : Prop where
  paths : ∀ entry ∈ report.files.entries, escape ∉ entry.1.toList
  messages : ∀ entry ∈ report.files.entries, ∀ v ∈ entry.2, escape ∉ v.message.toList
  skipped : ∀ file ∈ report.skipped, escape ∉ file.path.toList ∧ escape ∉ file.reason.toList

theorem escape_notMem_alignRight (width n : Nat) : escape ∉ alignRight width n := by
  intro h
  rcases List.mem_append.mp h with h | h
  · exact absurd (List.eq_of_mem_replicate h) (by decide)
  · exact notMem_toDigits rfl n h

theorem escape_notMem_summaryText (s : Summary) : escape ∉ s.text.toList := by
  have hdigits : ∀ n, escape ∉ Nat.toDigits 10 n := notMem_toDigits rfl
  simp [Summary.text, hdigits]
  decide

theorem escape_notMem_blanks : escape ∉ (plain "  ").text := by decide

theorem escape_notMem_violationLine (width : Nat) {v : Violation} (h : escape ∉ v.message.toList) :
    ∀ span ∈ violationLine width v, escape ∉ span.text := by
  simp only [violationLine, List.forall_mem_cons]
  exact ⟨escape_notMem_blanks, escape_notMem_alignRight width v.line, escape_notMem_blanks, h,
    by simp⟩

theorem escape_notMem_skippedLine {file : SkippedFile} (hpath : escape ∉ file.path.toList)
    (hreason : escape ∉ file.reason.toList) : ∀ span ∈ skippedLine file, escape ∉ span.text := by
  have hbrackets : escape ∉ s!" ({file.reason})".toList := by
    rw [String.toList_append, String.toList_append, List.mem_append, List.mem_append]
    rintro ((h | h) | h)
    · exact absurd h (by decide)
    · exact hreason h
    · exact absurd h (by decide)
  simp only [skippedLine, List.forall_mem_cons]
  exact ⟨escape_notMem_blanks, hpath, hbrackets, by simp⟩

theorem unescaped_fileBlock {path : String} {violations : List Violation}
    (hpath : escape ∉ path.toList) (h : ∀ v ∈ violations, escape ∉ v.message.toList) :
    Unescaped (fileBlock path violations) := by
  simp only [Unescaped, fileBlock, List.forall_mem_cons, List.forall_mem_map]
  exact ⟨by simp, ⟨hpath, by simp⟩, fun v hv => escape_notMem_violationLine _ (h v hv)⟩

theorem unescaped_skippedBlock {skipped : List SkippedFile}
    (h : ∀ file ∈ skipped, escape ∉ file.path.toList ∧ escape ∉ file.reason.toList) :
    Unescaped (skippedBlock skipped) := by
  cases skipped with
  | nil => simp [Unescaped, skippedBlock]
  | cons first rest =>
    have hheading : escape ∉ (styled [1, 33] "Skipped").text := by decide
    have hfiles : ∀ line ∈ (first :: rest).map skippedLine, ∀ span ∈ line, escape ∉ span.text :=
      List.forall_mem_map.mpr fun file hfile =>
        escape_notMem_skippedLine (h file hfile).1 (h file hfile).2
    exact List.forall_mem_cons.mpr
      ⟨by simp, List.forall_mem_cons.mpr ⟨by simpa using hheading, hfiles⟩⟩

theorem unescaped_summaryBlock (report : Report) : Unescaped report.summaryBlock := by
  simp [Unescaped, summaryBlock, styled, escape_notMem_summaryText]

theorem EscapeFree.unescaped_lines {report : Report} (h : report.EscapeFree) :
    Unescaped report.lines := by
  intro line hline
  rw [lines, List.mem_append, List.mem_append] at hline
  rcases hline with (hline | hline) | hline
  · obtain ⟨entry, hentry, hline⟩ := List.mem_flatMap.mp hline
    exact unescaped_fileBlock (h.paths entry hentry) (h.messages entry hentry) line hline
  · exact unescaped_skippedBlock h.skipped line hline
  · exact unescaped_summaryBlock report line hline

theorem EscapeFree.uncolour_render {report : Report} (h : report.EscapeFree) (coloured : Bool) :
    uncolour (report.render coloured).toList = (report.render false).toList := by
  rw [render, render, String.toList_ofList, String.toList_ofList,
    uncolour_paintLines coloured h.unescaped_lines]

@[simp]
theorem numberWidth_cons (v : Violation) (violations : List Violation) :
    numberWidth (v :: violations) =
      max (Nat.toDigits 10 v.line).length (numberWidth violations) :=
  rfl

theorem length_le_numberWidth {v : Violation} {violations : List Violation} (h : v ∈ violations) :
    (Nat.toDigits 10 v.line).length ≤ numberWidth violations := by
  induction violations with
  | nil => contradiction
  | cons first rest ih =>
    rw [numberWidth_cons]
    rcases List.mem_cons.mp h with rfl | h
    · exact Nat.le_max_left ..
    · exact Nat.le_trans (ih h) (Nat.le_max_right ..)

theorem exists_length_eq_numberWidth {violations : List Violation} (h : violations ≠ []) :
    ∃ v ∈ violations, (Nat.toDigits 10 v.line).length = numberWidth violations := by
  induction violations with
  | nil => contradiction
  | cons first rest ih =>
    rw [numberWidth_cons]
    rcases Nat.le_total (numberWidth rest) (Nat.toDigits 10 first.line).length with hle | hle
    · exact ⟨first, List.mem_cons_self, (Nat.max_eq_left hle).symm⟩
    · rw [Nat.max_eq_right hle]
      cases rest with
      | nil => exact ⟨first, List.mem_cons_self, Nat.le_antisymm hle (Nat.zero_le _)⟩
      | cons second rest =>
        obtain ⟨v, hv, hlength⟩ := ih (List.cons_ne_nil _ _)
        exact ⟨v, List.mem_cons_of_mem _ hv, hlength⟩

/-- What a row shows up to the end of its line number. -/
def rowNumber (width : Nat) (v : Violation) : List Char :=
  [' ', ' '] ++ List.replicate (width - (Nat.toDigits 10 v.line).length) ' ' ++
    Nat.toDigits 10 v.line

/-- What a row shows in front of its message. -/
def rowLead (width : Nat) (v : Violation) : List Char := rowNumber width v ++ [' ', ' ']

def row (width : Nat) (v : Violation) : List Char :=
  rowLead width v ++ v.message.toList ++ ['\n']

/-- What is shown of a file: a line for its path, and the rows of its violations. -/
def blockText (entry : String × List Violation) : List Char :=
  '\n' :: entry.1.toList ++ '\n' :: entry.2.flatMap (row (numberWidth entry.2))

/-- A row has the rows before it above it and those behind it below it. -/
theorem blockText_append (path : String) (front : List Violation) (v : Violation)
    (back : List Violation) :
    let width := numberWidth (front ++ v :: back)
    blockText (path, front ++ v :: back) =
      '\n' :: path.toList ++ '\n' :: front.flatMap (row width) ++ row width v ++
        back.flatMap (row width) := by
  simp [blockText]

theorem paintLines_fileBlock (path : String) (violations : List Violation) :
    paintLines false (fileBlock path violations) = blockText (path, violations) := by
  have hrow (width : Nat) (v : Violation) :
      (violationLine width v).flatMap (paint false) ++ ['\n'] = row width v := by
    simp [violationLine, paint, plain, styled, row, rowLead, rowNumber, alignRight]
  have hrows (width : Nat) :
      paintLines false (violations.map (violationLine width)) = violations.flatMap (row width) := by
    simp only [paintLines, List.flatMap_map, hrow]
  rw [fileBlock, paintLines_cons, paintLines_cons, hrows]
  simp [blockText, paint, styled]

theorem render_false (report : Report) :
    (report.render false).toList =
      report.files.entries.flatMap blockText ++
        (paintLines false (skippedBlock report.skipped) ++
          paintLines false report.summaryBlock) := by
  have hfiles : paintLines false
      (report.files.entries.flatMap fun entry => fileBlock entry.1 entry.2) =
        report.files.entries.flatMap blockText := by
    rw [paintLines, List.flatMap_assoc]
    exact congrArg report.files.entries.flatMap
      (funext fun entry => paintLines_fileBlock entry.1 entry.2)
  rw [render, String.toList_ofList, lines, paintLines_append, paintLines_append, hfiles,
    List.append_assoc]

/-- The column behind the text: how many characters stand behind its last line end. -/
def column (text : List Char) : Nat :=
  text.foldl (fun n c => if c = '\n' then 0 else n + 1) 0

theorem column_append_newline (text : List Char) : column (text ++ ['\n']) = 0 := by
  simp [column]

theorem column_append_of_notMem (text : List Char) {cs : List Char} (h : '\n' ∉ cs) :
    column (text ++ cs) = column text + cs.length := by
  induction cs generalizing text with
  | nil => simp
  | cons c cs ih =>
    rw [List.mem_cons, not_or] at h
    have hstep : column (text ++ [c]) = column text + 1 := by
      simp [column, Ne.symm h.1]
    rw [List.append_cons, ih _ h.2, hstep, List.length_cons]
    omega

/-- A row starts where the row before it ended its line. -/
theorem column_rows {text : List Char} (h : column text = 0) (width : Nat)
    (violations : List Violation) : column (text ++ violations.flatMap (row width)) = 0 := by
  induction violations generalizing text with
  | nil => simpa using h
  | cons v violations ih =>
    rw [List.flatMap_cons, ← List.append_assoc]
    refine ih ?_
    rw [row, ← List.append_assoc]
    exact column_append_newline _

theorem newline_notMem_rowNumber (width : Nat) (v : Violation) : '\n' ∉ rowNumber width v := by
  have hdigits : '\n' ∉ Nat.toDigits 10 v.line := notMem_toDigits rfl v.line
  simp [rowNumber, hdigits]

theorem column_rowNumber {text : List Char} (h : column text = 0) {width : Nat} {v : Violation}
    (hv : (Nat.toDigits 10 v.line).length ≤ width) :
    column (text ++ rowNumber width v) = width + 2 := by
  have hlength : (rowNumber width v).length = width + 2 := by
    simp only [rowNumber, List.length_append, List.length_cons, List.length_nil,
      List.length_replicate]
    omega
  rw [column_append_of_notMem text (newline_notMem_rowNumber width v), h, hlength, Nat.zero_add]

theorem column_rowLead {text : List Char} (h : column text = 0) {width : Nat} {v : Violation}
    (hv : (Nat.toDigits 10 v.line).length ≤ width) :
    column (text ++ rowLead width v) = width + 4 := by
  rw [rowLead, ← List.append_assoc, column_append_of_notMem _ (by decide), column_rowNumber h hv]
  rfl

/-- Without its sequences the coloured form is the plain form, and the plain form has none. In both
the block of a file has a row for each violation: the line numbers end in one column, which leaves
room for the longest of them and no more, and the messages start two columns further. -/
theorem render_columns {report : Report} (h : report.EscapeFree) (coloured : Bool) :
    uncolour (report.render coloured).toList = (report.render false).toList ∧
    ∀ above path violations below, report.files.entries = above ++ (path, violations) :: below →
      (∀ v ∈ violations, (Nat.toDigits 10 v.line).length ≤ numberWidth violations) ∧
      (violations ≠ [] →
        ∃ v ∈ violations, (Nat.toDigits 10 v.line).length = numberWidth violations) ∧
      ∀ front v back, violations = front ++ v :: back →
        let width := numberWidth violations
        let text := above.flatMap blockText ++ '\n' :: path.toList ++
          '\n' :: front.flatMap (row width)
        text ++ row width v <+: uncolour (report.render coloured).toList ∧
          column (text ++ rowNumber width v) = width + 2 ∧
          column (text ++ rowLead width v) = width + 4 := by
  refine ⟨h.uncolour_render coloured, fun above path violations below hentries =>
    ⟨fun v hv => length_le_numberWidth hv, exists_length_eq_numberWidth,
      fun front v back hviolations => ?_⟩⟩
  subst hviolations
  intro width text
  have hwidth : (Nat.toDigits 10 v.line).length ≤ width :=
    length_le_numberWidth (List.mem_append_right front List.mem_cons_self)
  have hcolumn : column text = 0 := by
    have hpath : column (above.flatMap blockText ++ '\n' :: path.toList ++ ['\n']) = 0 :=
      column_append_newline _
    simpa [text] using column_rows hpath width front
  refine ⟨?_, column_rowNumber hcolumn hwidth, column_rowLead hcolumn hwidth⟩
  rw [h.uncolour_render coloured, render_false, hentries, List.flatMap_append, List.flatMap_cons,
    blockText_append]
  refine ⟨back.flatMap (row width) ++ (below.flatMap blockText ++
    (paintLines false (skippedBlock report.skipped) ++ paintLines false report.summaryBlock)), ?_⟩
  simp [text, width]

/-- Line numbers of different lengths, the longest not in the last place. -/
theorem render_columns_mixed :
    let violations : List Violation := [⟨7, "x"⟩, ⟨1234567, "y"⟩, ⟨42, "z"⟩]
    let report : Report :=
      ⟨⟨[("a", [⟨3, "\u00fc"⟩]), ("b", violations)], by decide⟩, [⟨"c", "gone"⟩], 3, 2⟩
    report.EscapeFree ∧
      uncolour (report.render true).toList = (report.render false).toList ∧
      ∃ text, text ++ row 7 ⟨42, "z"⟩ <+: uncolour (report.render true).toList ∧
        column (text ++ rowLead 7 ⟨42, "z"⟩) = 11 := by
  intro violations report
  have hfree : report.EscapeFree := by
    constructor <;> decide
  obtain ⟨hcolour, hcolumns⟩ := render_columns hfree true
  obtain ⟨-, -, hrows⟩ := hcolumns [("a", [⟨3, "\u00fc"⟩])] "b" violations [] rfl
  obtain ⟨hrow, -, hlead⟩ := hrows [⟨7, "x"⟩, ⟨1234567, "y"⟩] ⟨42, "z"⟩ [] rfl
  exact ⟨hfree, hcolour, _, hrow, hlead⟩

end Report

end SheetLint
