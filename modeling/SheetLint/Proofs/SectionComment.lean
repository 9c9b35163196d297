import SheetLint.Proofs.LeadingToken

/-!
# Section comments

A section comment is a body between two frames, and the frames take their own characters each: a
blank between slashes and dashes cannot close them as well. What stands between the frames is the
body, dashes or not, as long as it has no blank at either end. A note is asked for no form at all.
-/

namespace SheetLint

open Text LineKind

namespace SectionComment

/-- The text is the body between its frames, and no blank touches the frames from inside. -/
def Framed (text body : List Char) : Prop :=
  text = "// -- ".toList ++ (body ++ " --".toList) ∧ body ≠ [] ∧
    (∀ c, body.head? = some c → isBlank c = false) ∧
    ∀ c, body.getLast? = some c → isBlank c = false

/-- The roles that ask for the form of a section comment. -/
def roles : List Role := [.component, .layout, .mixin, .module]

theorem begins_not_isBlank_iff {cs : List Char} :
    begins (fun c => !isBlank c) cs = true ↔
      cs ≠ [] ∧ ∀ c, cs.head? = some c → isBlank c = false := by
  cases cs with
  | nil => simp [begins]
  | cons c cs => simp [begins]

theorem isSectionComment_iff {raw : List Char} :
    Shape.isSectionComment raw = true ↔ ∃ body, Framed (trimStart raw) body ∧ '\n' ∉ body := by
  constructor
  · intro h
    rw [Shape.isSectionComment] at h
    split at h
    · next rest hrest =>
      split at h
      · next body hbody =>
        simp only [Bool.and_eq_true, begins_not_isBlank_iff, List.head?_reverse, ne_eq,
          List.reverse_eq_nil_iff, Bool.not_eq_true', List.contains_eq_mem,
          decide_eq_false_iff_not] at h
        obtain ⟨⟨⟨hne, hfirst⟩, -, hlast⟩, hfeed⟩ := h
        have htext := afterStart?_eq_some_iff.mp hrest
        rw [beforeEnd?_eq_some_iff.mp hbody] at htext
        exact ⟨body, ⟨htext, hne, hfirst, hlast⟩, hfeed⟩
      · simp at h
    · simp at h
  · rintro ⟨body, ⟨htext, hne, hfirst, hlast⟩, hfeed⟩
    have hbegins : begins (fun c => !isBlank c) body = true :=
      begins_not_isBlank_iff.mpr ⟨hne, hfirst⟩
    have hends : begins (fun c => !isBlank c) body.reverse = true :=
      begins_not_isBlank_iff.mpr ⟨by simpa using hne, by simpa using hlast⟩
    rw [Shape.isSectionComment, afterStart?_eq_some_iff.mpr htext]
    simp only [beforeEnd?_eq_some_iff.mpr rfl, hbegins, hends, Bool.true_and]
    simpa using hfeed

/-- Both frames and a body take up ten characters. -/
theorem Framed.length_le {text body : List Char} (h : Framed text body) : 10 ≤ text.length := by
  obtain ⟨rfl, hne, -⟩ := h
  have hpos := List.length_pos_iff.mpr hne
  simp only [List.length_append, String.length_toList]
  have hstart : "// -- ".length = 6 := by decide
  have hend : " --".length = 3 := by decide
  omega

theorem mem_of_mem_trim {cs : List Char} {c : Char} (h : c ∈ trim cs) : c ∈ cs := by
  obtain ⟨front, -, hfront⟩ := exists_trimStart (trimEnd cs)
  obtain ⟨back, -, hback⟩ := exists_trimEnd cs
  rw [hback, hfront]
  exact List.mem_append_left _ (List.mem_append_right _ h)

/-- In a line without a feed the body has none. -/
theorem accepts_iff {source : String} (hfeed : '\n' ∉ source.toList) (number : Nat)
    (space : String) :
    Shape.sectionComment.accepts (Line.ofString number source) space = true ↔
      ∃ body, Framed (trim source.toList) body := by
  rw [Shape.accepts, isSectionComment_iff, Line.trimStart_raw_ofString]
  refine exists_congr fun body => and_iff_left_of_imp fun hframed hbody => ?_
  refine hfeed (mem_of_mem_trim ?_)
  rw [hframed.1]
  exact List.mem_append_right _ (List.mem_append_left _ hbody)

theorem find?_comment (role : Role) :
    Rule.find? .comment role =
      if role ∈ roles then some (.shaped .sectionComment .commentShape) else none := by
  cases role <;> rfl

theorem find?_todo (role : Role) : Rule.find? .todo role = none := by
  cases role <;> rfl

open Classical in
theorem message?_of_slashes (number : Nat) {source : String} (role : Role) (space : String)
    (hfeed : '\n' ∉ source.toList) (hslashes : "//".toList <+: trim source.toList) :
    (Line.ofString number source).message? role space =
      if role ∈ roles ∧ ¬ OpensTodo (trim source.toList) ∧
          ¬ ∃ body, Framed (trim source.toList) body then
        some "invalid comment format, expected // -- comment --"
      else none := by
  by_cases htodo : OpensTodo (trim source.toList)
  · have hkind : (Line.ofString number source).kind = some .todo :=
      Line.kind_ofString_eq_some_iff.mpr htodo
    rw [Line.message?_of_unruled hkind (find?_todo role), if_neg fun h => h.2.1 htodo]
  have hkind : (Line.ofString number source).kind = some .comment :=
    Line.kind_ofString_eq_some_iff.mpr ⟨hslashes, htodo⟩
  by_cases hrole : role ∈ roles
  · have hrule : Rule.find? .comment role = some (.shaped .sectionComment .commentShape) := by
      rw [find?_comment, if_pos hrole]
    rw [Line.message?_of_shaped hkind hrule (accepts_iff hfeed number space)]
    by_cases hframed : ∃ body, Framed (trim source.toList) body
    · rw [if_pos hframed, if_neg fun h => h.2.2 hframed]
    · rw [if_neg hframed, if_pos ⟨hrole, htodo, hframed⟩]
      rfl
  · have hrule : Rule.find? .comment role = none := by
      rw [find?_comment, if_neg hrole]
    rw [Line.message?_of_unruled hkind hrule, if_neg fun h => hrole h.1]

open Classical in
/-- A comment is told its form exactly if the role asks for it, the comment is no note, and it has
no body between its frames. The frames share no blank, and dashes make a body. -/
theorem message?_comment :
    (∀ (number : Nat) (source : String) (role : Role) (space : String), '\n' ∉ source.toList →
      "//".toList <+: trim source.toList →
        (Line.ofString number source).message? role space =
          if role ∈ roles ∧ ¬ OpensTodo (trim source.toList) ∧
              ¬ ∃ body, Framed (trim source.toList) body then
            some "invalid comment format, expected // -- comment --"
          else none) ∧
    (∀ number, ∀ role ∈ roles, ∀ space, (Line.ofString number "// -- --").message? role space =
      some "invalid comment format, expected // -- comment --") ∧
    ∀ number role space, (Line.ofString number "// -- -- --").message? role space = none := by
  refine ⟨fun number source role space => message?_of_slashes number role space, ?_, ?_⟩
  · intro number role hrole space
    have htodo : ¬ OpensTodo (trim "// -- --".toList) := by
      intro h
      exact absurd (opensTodo_iff.mpr h) (by decide)
    have hshort : ¬ ∃ body, Framed (trim "// -- --".toList) body := by
      rintro ⟨body, hframed⟩
      exact absurd hframed.length_le (by decide)
    rw [message?_of_slashes number role space (by decide) (by decide),
      if_pos ⟨hrole, htodo, hshort⟩]
  · intro number role space
    have hframed : Framed (trim "// -- -- --".toList) "--".toList :=
      ⟨by decide, by decide, by rintro c ⟨⟩; decide, by rintro c ⟨⟩; decide⟩
    rw [message?_of_slashes number role space (by decide) (by decide),
      if_neg fun h => h.2.2 ⟨_, hframed⟩]

/-- A body with a blank at its start, and one with everything else. -/
theorem message?_comment_of_grid :
    (Line.ofString 3 "  // --  grid --").message? .layout "" =
      some "invalid comment format, expected // -- comment --" ∧
    (Line.ofString 3 "  // --  grid --").message? .config "" = none ∧
    (Line.ofString 4 "\t// -- grid // -- 2 -- ").message? .layout "" = none := by
  have hpadded := message?_comment.1 3 "  // --  grid --"
  have htodo : ¬ OpensTodo (trim "  // --  grid --".toList) := by
    intro h
    exact absurd (opensTodo_iff.mpr h) (by decide)
  have hbare : ¬ ∃ body, Framed (trim "  // --  grid --".toList) body := by
    intro h
    exact absurd ((accepts_iff (by decide) 3 "").mpr h) (by decide +kernel)
  have hframed : Framed (trim "\t// -- grid // -- 2 -- ".toList) "grid // -- 2".toList :=
    ⟨by decide +kernel, by decide, by rintro c ⟨⟩; decide, by rintro c ⟨⟩; decide⟩
  refine ⟨?_, ?_, ?_⟩
  · rw [hpadded .layout "" (by decide) (by decide), if_pos ⟨by decide, htodo, hbare⟩]
  · rw [hpadded .config "" (by decide) (by decide), if_neg fun h => absurd h.1 (by decide)]
  · rw [message?_comment.1 4 _ .layout "" (by decide) (by decide +kernel),
      if_neg fun h => h.2.2 ⟨_, hframed⟩]

end SectionComment

end SheetLint
