import SheetLint.Proofs.Words

/-!
# Variables

The forms of a variable are splits of the line's text at its first colon. No part of a split can
contain the character that ends it, so a text is split in one way at most, and the namespace that is
compared is the same for every way of looking for it. The colon that makes the line a variable may
be a later one, behind characters that no name has; such a line has no split.
-/

namespace SheetLint

open Text

namespace Variable

/-- A configuration's variable: a small letter and then letters, digits and underscores. -/
def OfConfig (text word rest : List Char) : Prop :=
  text = '$' :: (word ++ ':' :: rest) ∧
    IsWord Char.isLower (fun c => c.isAlphanum || c == '_') word

/-- A layout's variable: `l` and a capitalized word. -/
def OfLayout (text word rest : List Char) : Prop :=
  text = '$' :: 'l' :: (word ++ ':' :: rest) ∧ IsWord Char.isUpper Char.isAlphanum word

/-- A variable with a name of its own behind the namespace. -/
def Named (letter : Char) (text found own rest : List Char) : Prop :=
  text = '$' :: letter :: (found ++ '_' :: (own ++ ':' :: rest)) ∧
    IsSpaceWord found ∧ IsOwnWord own

/-- A word that begins behind a lead and goes up to a colon. -/
def Led (lead : List Char) (first more : Char → Bool) (text word rest : List Char) : Prop :=
  text = lead ++ (word ++ ':' :: rest) ∧ IsWord first more word

/-- What is left behind a word begins with a colon. -/
def meetsColon : Option (List Char × List Char) → Bool
  | some (_, ':' :: _) => true
  | _ => false

section Led

variable {first more : Char → Bool} {lead : List Char}

theorem meetsColon_word?_iff (hcolon : more ':' = false) {cs : List Char} :
    meetsColon (word? first more cs) = true ↔
      ∃ word rest, cs = word ++ ':' :: rest ∧ IsWord first more word := by
  constructor
  · intro h
    unfold meetsColon at h
    split at h
    · next word rest hword =>
      obtain ⟨hw, hcs, -⟩ := word?_eq_some_iff.mp hword
      exact ⟨word, rest, hcs, hw⟩
    · simp at h
  · rintro ⟨word, rest, hcs, hw⟩
    rw [word?_eq_some_iff.mpr ⟨hw, hcs, hcolon⟩]
    rfl

/-- A shape that asks for the lead, and behind it for the longest word and a colon, finds the split
there is, since no word goes on over a colon. -/
theorem led_iff (hcolon : more ':' = false) {shape : List Char → Bool}
    (hlead : ∀ text, shape text = true → lead <+: text)
    (hshape : ∀ cs, shape (lead ++ cs) = meetsColon (word? first more cs)) {text : List Char} :
    shape text = true ↔ ∃ word rest, Led lead first more text word rest := by
  constructor
  · intro h
    obtain ⟨cs, rfl⟩ := hlead text h
    rw [hshape, meetsColon_word?_iff hcolon] at h
    obtain ⟨word, rest, rfl, hw⟩ := h
    exact ⟨word, rest, rfl, hw⟩
  · rintro ⟨word, rest, rfl, hw⟩
    rw [hshape, meetsColon_word?_iff hcolon]
    exact ⟨word, rest, rfl, hw⟩

theorem Led.unique (hcolon : more ':' = false) {text word word' rest rest' : List Char}
    (h : Led lead first more text word rest) (h' : Led lead first more text word' rest') :
    word = word' ∧ rest = rest' := by
  obtain ⟨rfl, hword⟩ := h
  obtain ⟨htext, hword'⟩ := h'
  have hends : ∀ rest, begins more (':' :: rest) = false := fun _ => hcolon
  obtain ⟨hw, hrest⟩ :=
    hword.append_unique hword' (hends _) (hends _) (List.append_cancel_left htext)
  exact ⟨hw, (List.cons.inj hrest).2⟩

end Led

theorem ofConfig_iff_led {text word rest : List Char} : OfConfig text word rest ↔
    Led ['$'] Char.isLower (fun c => c.isAlphanum || c == '_') text word rest :=
  Iff.rfl

theorem ofLayout_iff_led {text word rest : List Char} : OfLayout text word rest ↔
    Led ['$', 'l'] Char.isUpper Char.isAlphanum text word rest :=
  Iff.rfl

theorem isConfigVariable_iff {text : List Char} :
    Shape.isConfigVariable text = true ↔ ∃ word rest, OfConfig text word rest := by
  simp only [ofConfig_iff_led]
  refine led_iff rfl ?_ fun _ => rfl
  intro text h
  unfold Shape.isConfigVariable at h
  split at h
  · exact ⟨_, rfl⟩
  · simp at h

theorem isLayoutVariable_iff {text : List Char} :
    Shape.isLayoutVariable text = true ↔ ∃ word rest, OfLayout text word rest := by
  simp only [ofLayout_iff_led]
  refine led_iff rfl ?_ fun _ => rfl
  intro text h
  unfold Shape.isLayoutVariable at h
  split at h
  · exact ⟨_, rfl⟩
  · simp at h

theorem isOwnedVariable_iff {owner : Owner} {space text : List Char} :
    Shape.isOwnedVariable owner space text = true ↔
      ∃ found own rest, Named owner.letter text found own rest ∧ lowercase found = space := by
  constructor
  · intro h
    unfold Shape.isOwnedVariable at h
    split at h
    · next letter cs =>
      obtain ⟨hletter, hname⟩ := Bool.and_eq_true_iff.mp h
      split at hname
      · next found rest hfound =>
        obtain ⟨own, hspace, hown, rfl, -⟩ := namespaced?_eq_some_iff.mp hfound
        have hl : letter = owner.letter := by simpa using hletter
        exact ⟨found, own, rest, ⟨by rw [hl], hspace, hown⟩, by simpa using hname⟩
      · simp at hname
    · simp at h
  · rintro ⟨found, own, rest, ⟨rfl, hspace, hown⟩, hlow⟩
    have hfound := namespaced?_eq_some_iff.mpr
      ⟨own, hspace, hown, rfl, (rfl : begins _ (':' :: rest) = false)⟩
    simp [Shape.isOwnedVariable, hfound, hlow]

theorem Named.unique {letter letter' : Char} {text found found' own own' rest rest' : List Char}
    (h : Named letter text found own rest) (h' : Named letter' text found' own' rest') :
    letter = letter' ∧ found = found' ∧ own = own' ∧ rest = rest' := by
  obtain ⟨rfl, hspace, hown⟩ := h
  obtain ⟨htext, hspace', hown'⟩ := h'
  obtain ⟨hletter, hcs⟩ := List.cons.inj (List.cons.inj htext).2
  obtain ⟨hfound, hname, hrest⟩ := namespaced_append_unique hspace hspace' hown hown' rfl rfl hcs
  exact ⟨hletter, hfound, hname, (List.cons.inj hrest).2⟩

open Classical in
/-- A variable is out of place in a style, free in a mixin, and has a form of the role elsewhere.
Each form splits a text in one way at most. -/
theorem message?_variableDecl (number : Nat) (source space : String)
    (h : (Line.ofString number source).kind = some .variableDecl) :
    let line := Line.ofString number source
    let text := trim source.toList
    line.message? .style space = some "define in Config instead" ∧
    line.message? .mixin space = none ∧
    (line.message? .config space =
      if ∃ word rest, OfConfig text word rest then none else some "invalid variable name") ∧
    (line.message? .layout space =
      if ∃ word rest, OfLayout text word rest then none else some "invalid variable name") ∧
    (line.message? .component space =
      if ∃ found own rest, Named 'c' text found own rest ∧ lowercase found = space.toList then none
      else some "invalid variable name") ∧
    (line.message? .module space =
      if ∃ found own rest, Named 'm' text found own rest ∧ lowercase found = space.toList then none
      else some "invalid variable name") ∧
    (∀ word rest word' rest', OfConfig text word rest → OfConfig text word' rest' →
      word = word' ∧ rest = rest') ∧
    (∀ word rest word' rest', OfLayout text word rest → OfLayout text word' rest' →
      word = word' ∧ rest = rest') ∧
    ∀ letter found own rest letter' found' own' rest', Named letter text found own rest →
      Named letter' text found' own' rest' →
        letter = letter' ∧ found = found' ∧ own = own' ∧ rest = rest' := by
  intro line text
  have htext : line.text.toList = text := Line.text_ofString number source
  refine ⟨?_, ?_, ?_, ?_, ?_, ?_, fun _ _ _ _ h h' => ?_, fun _ _ _ _ h h' => ?_,
    fun _ _ _ _ _ _ _ _ => Named.unique⟩
  · have hrule : Rule.find? .variableDecl .style = some (.forbidden .variableOutsideConfig) := rfl
    exact Line.message?_of_forbidden h hrule space
  · have hrule : Rule.find? .variableDecl .mixin = none := rfl
    exact Line.message?_of_unruled h hrule space
  · have hrule : Rule.find? .variableDecl .config =
        some (.shaped .configVariable .variableName) := rfl
    apply Line.message?_of_shaped h hrule
    rw [Shape.accepts, htext]
    exact isConfigVariable_iff
  · have hrule : Rule.find? .variableDecl .layout =
        some (.shaped .layoutVariable .variableName) := rfl
    apply Line.message?_of_shaped h hrule
    rw [Shape.accepts, htext]
    exact isLayoutVariable_iff
  · have hrule : Rule.find? .variableDecl .component =
        some (.shaped (.ownedVariable .component) .variableName) := rfl
    apply Line.message?_of_shaped h hrule
    rw [Shape.accepts, htext]
    exact isOwnedVariable_iff
  · have hrule : Rule.find? .variableDecl .module =
        some (.shaped (.ownedVariable .module) .variableName) := rfl
    apply Line.message?_of_shaped h hrule
    rw [Shape.accepts, htext]
    exact isOwnedVariable_iff
  · exact (ofConfig_iff_led.mp h).unique rfl (ofConfig_iff_led.mp h')
  · exact (ofLayout_iff_led.mp h).unique rfl (ofLayout_iff_led.mp h')

theorem message?_variableDecl_of_height :
    let line := Line.ofString 4 "  $cButton_height: 2rem;"
    line.kind = some .variableDecl ∧
    line.message? .style "button" = some "define in Config instead" ∧
    line.message? .mixin "button" = none ∧
    line.message? .component "button" = none ∧
    line.message? .component "link" = some "invalid variable name" ∧
    line.message? .module "button" = some "invalid variable name" := by
  have hkind : (Line.ofString 4 "  $cButton_height: 2rem;").kind = some .variableDecl := by
    decide +kernel
  obtain ⟨hstyle, hmixin, -, -, hbutton, hmodule, -, -, honce⟩ :=
    message?_variableDecl 4 _ "button" hkind
  obtain ⟨-, -, -, -, hlink, -⟩ := message?_variableDecl 4 _ "link" hkind
  have hnamed : Named 'c' (trim "  $cButton_height: 2rem;".toList) "Button".toList "height".toList
      " 2rem;".toList :=
    ⟨by decide +kernel, by decide +kernel, by decide +kernel⟩
  refine ⟨hkind, hstyle, hmixin, hbutton.trans (if_pos ⟨_, _, _, hnamed, by decide +kernel⟩),
    hlink.trans (if_neg ?_), hmodule.trans (if_neg ?_)⟩
  · rintro ⟨found, own, rest, hother, hlow⟩
    obtain ⟨-, rfl, -⟩ := honce _ _ _ _ _ _ _ _ hnamed hother
    exact absurd hlow (by decide +kernel)
  · rintro ⟨found, own, rest, hother, -⟩
    obtain ⟨hletter, -⟩ := honce _ _ _ _ _ _ _ _ hnamed hother
    exact absurd hletter (by decide)

end Variable

end SheetLint
