import Mathlib.Data.List.Pairwise
import SheetLint.Proofs.Words

/-!
# What a line starts with

The kind of a line is settled by what stands at the start of its text. No token that opens a kind
is the start of another one's, so on a record no two of the tests can hold, and it does not matter
in which order they are made. That takes the two views of a line to belong together: on a text and
a line that have nothing to do with each other several tests can hold, and the first one decides.
-/

namespace SheetLint

open Text

namespace LineKind

/-- Slashes, at least one blank, and the mark of a note. -/
def OpensTodo (text : List Char) : Prop :=
  ∃ blanks rest, text = "//".toList ++ (blanks ++ ("TODO:".toList ++ rest)) ∧
    blanks ≠ [] ∧ AllBlank blanks

/-- A dollar sign, a run without a blank, not empty, and a colon. -/
def OpensVariable (text : List Char) : Prop :=
  ∃ run rest, text = '$' :: (run ++ ':' :: rest) ∧ run ≠ [] ∧ ∀ c ∈ run, isBlank c = false

/-- What a text has to start with for a line to be of the kind. -/
def Opens (text : List Char) : LineKind → Prop
  | todo => OpensTodo text
  | comment => "//".toList <+: text ∧ ¬ OpensTodo text
  | variableDecl => OpensVariable text
  | placeholder => "%".toList <+: text
  | functionDecl => "@function ".toList <+: text
  | mixinDecl => "@mixin ".toList <+: text
  | classSelector => ".".toList <+: text

theorem opensComment_iff {raw : List Char} :
    opensComment raw = true ↔ "//".toList <+: trimStart raw :=
  isSome_afterStart?_iff

theorem opensTodo_iff {raw : List Char} : opensTodo raw = true ↔ OpensTodo (trimStart raw) := by
  have hmark : isBlank 'T' = false := by decide
  constructor
  · intro h
    rw [opensTodo] at h
    split at h
    · next c behind hbehind =>
      obtain ⟨hblank, hsome⟩ := Bool.and_eq_true_iff.mp h
      obtain ⟨rest, hrest⟩ := isSome_afterStart?_iff.mp hsome
      obtain ⟨blanks, hblanks, hcut⟩ := exists_trimStart behind
      rw [← hrest] at hcut
      refine ⟨c :: blanks, rest, ?_, by simp, List.forall_mem_cons.mpr ⟨hblank, hblanks⟩⟩
      rw [afterStart?_eq_some_iff.mp hbehind, hcut]
      rfl
    · simp at h
  · rintro ⟨blanks, rest, htext, hne, hblanks⟩
    obtain ⟨c, others, rfl⟩ := List.exists_cons_of_ne_nil hne
    obtain ⟨hc, hothers⟩ := List.forall_mem_cons.mp hblanks
    have htrim : trimStart (others ++ ("TODO:".toList ++ rest)) = "TODO:".toList ++ rest :=
      (trimStart_blank_append hothers _).trans (trimStart_eq_self hmark)
    have hbehind : afterStart? ['/', '/'] (trimStart raw) =
        some (c :: (others ++ ("TODO:".toList ++ rest))) :=
      afterStart?_eq_some_iff.mpr htext
    simp only [opensTodo, hbehind, hc, htrim, afterStart?_append, Option.isSome_some, Bool.and_self]

theorem opensVariable_iff {text : List Char} :
    opensVariable text = true ↔ OpensVariable text := by
  constructor
  · intro h
    unfold opensVariable at h
    split at h
    · next c behind =>
      simp only [Bool.and_eq_true, Bool.not_eq_true', List.contains_iff_mem] at h
      obtain ⟨hc, hcolon⟩ := h
      obtain ⟨front, back, hrun⟩ := List.append_of_mem hcolon
      have hclear : ∀ d ∈ front, isBlank d = false := by
        intro d hd
        simpa using all_takeWhile (p := fun d => !isBlank d) d (hrun ▸ List.mem_append_left _ hd)
      refine ⟨c :: front, back ++ behind.dropWhile fun d => !isBlank d, ?_, by simp,
        List.forall_mem_cons.mpr ⟨hc, hclear⟩⟩
      have hbehind : behind = front ++ ':' :: (back ++ behind.dropWhile fun d => !isBlank d) := by
        rw [← List.cons_append, ← List.append_assoc, ← hrun, List.takeWhile_append_dropWhile]
      exact congrArg (fun cs => '$' :: c :: cs) hbehind
    · simp at h
  · rintro ⟨run, rest, rfl, hne, hclear⟩
    obtain ⟨c, front, rfl⟩ := List.exists_cons_of_ne_nil hne
    obtain ⟨hc, hfront⟩ := List.forall_mem_cons.mp hclear
    have hcolon : isBlank ':' = false := by decide
    have hrun : (front ++ ':' :: rest).takeWhile (fun d => !isBlank d) =
        front ++ ':' :: rest.takeWhile fun d => !isBlank d := by
      rw [List.takeWhile_append_of_pos (by simpa using hfront)]
      simp [hcolon]
    simp [opensVariable, hc, hrun]

/-- The token that a line of the kind starts with. -/
def token : LineKind → List Char
  | comment | todo => "//".toList
  | variableDecl => "$".toList
  | placeholder => "%".toList
  | functionDecl => "@function ".toList
  | mixinDecl => "@mixin ".toList
  | classSelector => ".".toList

theorem Opens.token_prefix {text : List Char} {kind : LineKind} (h : Opens text kind) :
    kind.token <+: text := by
  cases kind with
  | comment => exact h.1
  | todo =>
    obtain ⟨blanks, rest, rfl, -⟩ := h
    exact List.prefix_append _ _
  | variableDecl =>
    obtain ⟨run, rest, rfl, -⟩ := h
    exact List.prefix_append ['$'] _
  | placeholder => exact h
  | functionDecl => exact h
  | mixinDecl => exact h
  | classSelector => exact h

/-- No token is the start of another one. -/
theorem token_eq_of_starts {kind other : LineKind} (h : kind.token <+: other.token) :
    kind.token = other.token := by
  revert h
  cases kind <;> cases other <;> decide

/-- Only the two kinds of comments share their token. -/
theorem eq_of_token_eq {kind other : LineKind} (h : kind.token = other.token) :
    kind = other ∨ (kind = comment ∧ other = todo) ∨ (kind = todo ∧ other = comment) := by
  revert h
  cases kind <;> cases other <;> decide

theorem Opens.unique {text : List Char} {kind other : LineKind} (h : Opens text kind)
    (h' : Opens text other) : kind = other := by
  have htoken : kind.token = other.token := by
    rcases List.prefix_or_prefix_of_prefix h.token_prefix h'.token_prefix with hle | hle
    · exact token_eq_of_starts hle
    · exact (token_eq_of_starts hle).symm
  rcases eq_of_token_eq htoken with rfl | ⟨rfl, rfl⟩ | ⟨rfl, rfl⟩
  · rfl
  · exact absurd h' h.2
  · exact absurd h h'.2

/-- A test of the first token, on the text of a line and on the line with its indentation, and the
kind that it decides for. -/
structure TokenTest where
  holds : List Char → List Char → Bool
  kind : List Char → LineKind

namespace TokenTest

/-- The mark of a note is only looked for behind slashes. -/
def comments : TokenTest :=
  ⟨fun _ raw => opensComment raw, fun raw => if opensTodo raw then todo else comment⟩

def declarations : TokenTest := ⟨fun text _ => opensVariable text, fun _ => variableDecl⟩

def placeholders : TokenTest := ⟨fun text _ => opensPlaceholder text, fun _ => placeholder⟩

def functions : TokenTest := ⟨fun text _ => opensFunction text, fun _ => functionDecl⟩

def mixins : TokenTest := ⟨fun text _ => opensMixin text, fun _ => mixinDecl⟩

def classes : TokenTest := ⟨fun _ raw => opensClass raw, fun _ => classSelector⟩

end TokenTest

open TokenTest

/-- The six tests in the order in which they are made. -/
def tests : List TokenTest := [comments, declarations, placeholders, functions, mixins, classes]

/-- The kind that the first test that holds decides for. -/
def firstKind (order : List TokenTest) (text raw : List Char) : Option LineKind :=
  (order.find? fun test => test.holds text raw).map fun test => test.kind raw

theorem ofText?_eq_firstKind (text raw : List Char) :
    ofText? text raw = firstKind tests text raw := by
  simp only [ofText?, firstKind, tests, List.find?_cons, List.find?_nil, comments, declarations,
    placeholders, functions, mixins, classes]
  cases opensComment raw with
  | true => cases htodo : opensTodo raw <;> simp [htodo]
  | false =>
    cases opensVariable text <;> cases opensPlaceholder text <;> cases opensFunction text <;>
      cases opensMixin text <;> cases opensClass raw <;> rfl

variable {text raw : List Char}

/-- Where the text is the line without its indentation, a test holds exactly when the text opens the
kind that the test decides for. -/
theorem holds_iff (hraw : trimStart raw = text) {test : TokenTest} (h : test ∈ tests) :
    test.holds text raw = true ↔ Opens text (test.kind raw) := by
  subst hraw
  simp only [tests, List.mem_cons, List.not_mem_nil, or_false] at h
  rcases h with rfl | rfl | rfl | rfl | rfl | rfl
  · dsimp only [comments]
    by_cases htodo : opensTodo raw = true
    · rw [if_pos htodo, opensComment_iff, Opens, ← opensTodo_iff]
      obtain ⟨blanks, rest, htext, -⟩ := opensTodo_iff.mp htodo
      exact iff_of_true ⟨_, htext.symm⟩ htodo
    · rw [if_neg htodo, opensComment_iff, Opens, ← opensTodo_iff]
      exact (and_iff_left htodo).symm
  · exact opensVariable_iff
  · exact isSome_afterStart?_iff
  · exact isSome_afterStart?_iff
  · exact isSome_afterStart?_iff
  · exact isSome_afterStart?_iff

theorem exists_test_of_opens (hraw : trimStart raw = text) {kind : LineKind}
    (h : Opens text kind) : ∃ test ∈ tests, test.kind raw = kind := by
  subst hraw
  cases kind with
  | comment =>
    exact ⟨comments, List.mem_cons_self, if_neg fun htodo => h.2 (opensTodo_iff.mp htodo)⟩
  | todo => exact ⟨comments, List.mem_cons_self, if_pos (opensTodo_iff.mpr h)⟩
  | variableDecl => exact ⟨declarations, by simp [tests], rfl⟩
  | placeholder => exact ⟨placeholders, by simp [tests], rfl⟩
  | functionDecl => exact ⟨functions, by simp [tests], rfl⟩
  | mixinDecl => exact ⟨mixins, by simp [tests], rfl⟩
  | classSelector => exact ⟨classes, by simp [tests], rfl⟩

theorem firstKind_eq_some_iff (hraw : trimStart raw = text) {order : List TokenTest}
    (horder : order.Perm tests) {kind : LineKind} :
    firstKind order text raw = some kind ↔ Opens text kind := by
  have hholds : ∀ test ∈ order, (test.holds text raw = true ↔ Opens text (test.kind raw)) :=
    fun test htest => holds_iff hraw (horder.mem_iff.mp htest)
  rw [firstKind, Option.map_eq_some_iff]
  constructor
  · rintro ⟨test, hfound, rfl⟩
    exact (hholds test (List.mem_of_find?_eq_some hfound)).mp (by simpa using List.find?_some hfound)
  · intro h
    obtain ⟨test, htest, rfl⟩ := exists_test_of_opens hraw h
    have hmem := horder.mem_iff.mpr htest
    cases hfound : order.find? fun test => test.holds text raw with
    | none => exact absurd ((hholds test hmem).mpr h) (List.find?_eq_none.mp hfound test hmem)
    | some other =>
      have hother := (hholds other (List.mem_of_find?_eq_some hfound)).mp
        (by simpa using List.find?_some hfound)
      exact ⟨other, rfl, hother.unique h⟩

theorem tests_exclusive (hraw : trimStart raw = text) :
    tests.Pairwise fun test other =>
      ¬ (test.holds text raw = true ∧ other.holds text raw = true) := by
  have hkinds : tests.Pairwise fun test other => test.kind raw ≠ other.kind raw := by
    by_cases htodo : opensTodo raw = true <;>
      simp [tests, comments, declarations, placeholders, functions, mixins, classes, htodo]
  refine hkinds.imp_of_mem fun htest hother hne => ?_
  rintro ⟨hholds, hholds'⟩
  exact hne (((holds_iff hraw htest).mp hholds).unique ((holds_iff hraw hother).mp hholds'))

example : (tests.filter fun test => test.holds "$red: 1;".toList "// red".toList).length = 2 := by
  decide

end LineKind

namespace Line

open LineKind

theorem kind_ofString_eq_some_iff {number : Nat} {source : String} {kind : LineKind} :
    (ofString number source).kind = some kind ↔ Opens (trim source.toList) kind := by
  have hkind : (ofString number source).kind =
      firstKind tests (trim source.toList) (trimEnd source.toList) :=
    ofText?_eq_firstKind _ _
  rw [hkind]
  exact firstKind_eq_some_iff rfl (List.Perm.refl _)

/-- The kind of a line is the one that its text opens, if there is one. The first of six tests that
holds decides about it; no two of them hold on a record, so they can be made in any order. -/
theorem kind_exact :
    (∀ text raw, ofText? text raw = firstKind tests text raw) ∧
    ∀ (number : Nat) (source : String),
      let line := ofString number source
      let text := trim source.toList
      (∀ kind, line.kind = some kind ↔ Opens text kind) ∧
      (line.kind = none ↔ ∀ kind, ¬ Opens text kind) ∧
      (∀ number' source', trim source'.toList = text →
        (ofString number' source').kind = line.kind) ∧
      (tests.Pairwise fun test other =>
        ¬ (test.holds line.text.toList line.raw.toList = true ∧
          other.holds line.text.toList line.raw.toList = true)) ∧
      ∀ order, order.Perm tests →
        firstKind order line.text.toList line.raw.toList = line.kind := by
  refine ⟨ofText?_eq_firstKind, fun number source => ?_⟩
  intro line text
  have hkind : ∀ kind, line.kind = some kind ↔ Opens text kind :=
    fun kind => kind_ofString_eq_some_iff
  have hraw : trimStart line.raw.toList = line.text.toList := by
    rw [trimStart_raw_ofString, text_ofString]
  refine ⟨hkind, ?_, ?_, tests_exclusive hraw, ?_⟩
  · rw [Option.eq_none_iff_forall_ne_some]
    exact forall_congr' fun kind => not_congr (hkind kind)
  · intro number' source' htext
    apply Option.ext
    intro kind
    rw [hkind, kind_ofString_eq_some_iff, htext]
  · intro order horder
    apply Option.ext
    intro kind
    rw [hkind, firstKind_eq_some_iff hraw horder, text_ofString]

/-- Between the slashes and the mark there is a no-break space. -/
theorem kind_exact_of_note :
    let line := ofString 7 "\t//\u00A0TODO: dark mode"
    line.kind = some .todo ∧
    tests.reverse.Perm tests ∧
    firstKind tests.reverse line.text.toList line.raw.toList = some .todo ∧
    (ofString 1 "//\u00A0TODO: dark mode \r").kind = some .todo := by
  intro line
  obtain ⟨hkind, -, hsame, -, horder⟩ := kind_exact.2 7 "\t//\u00A0TODO: dark mode"
  have htodo : line.kind = some .todo := by
    refine (hkind .todo).mpr ⟨"\u00A0".toList, " dark mode".toList, by decide +kernel, by decide, ?_⟩
    simp [AllBlank, isBlank]
  have hperm : tests.reverse.Perm tests := tests.reverse_perm
  exact ⟨htodo, hperm, (horder _ hperm).trans htodo, (hsame 1 _ (by decide +kernel)).trans htodo⟩

end Line

end SheetLint
