import SheetLint.Proofs.Callable
import SheetLint.Proofs.ClassSelector
import SheetLint.Proofs.Placeholder
import SheetLint.Proofs.SectionComment
import SheetLint.Proofs.Variable

/-!
# Forms and the rules that ask for them

Each shape stands for a form of the line's text, and a text with a form starts with the token of a
kind whose rules ask for it. So the two readings of a line agree: what is well-formed for some rule
is neither left without a kind nor handed to the rules of another one. A section comment cannot be
taken for a note, since a dash stands where the mark of a note would begin.
-/

namespace SheetLint

open Text LineKind

/-- Functions and mixins, which are declared and named alike. -/
def LineKind.callables : List LineKind := [.functionDecl, .mixinDecl]

theorem LineKind.mem_callables_iff {kind : LineKind} :
    kind ∈ callables ↔ kind = .functionDecl ∨ kind = .mixinDecl := by
  rw [callables, List.mem_cons, List.mem_singleton]

namespace Shape

/-- The form that the shape stands for. A section comment and a class are looked for in the line
with its indentation, and `bare` is that line without it. On a record it is the text. -/
def Form (space text bare : List Char) : Shape → Prop
  | sectionComment => ∃ body, SectionComment.Framed bare body ∧ '\n' ∉ body
  | configVariable => ∃ word rest, Variable.OfConfig text word rest
  | layoutVariable => ∃ word rest, Variable.OfLayout text word rest
  | ownedVariable owner =>
    ∃ found own rest, Variable.Named owner.letter text found own rest ∧ lowercase found = space
  | layoutPlaceholder => Placeholder.OfLayout text
  | componentPlaceholder => Placeholder.Named 'c' space text ∨ Placeholder.Bare space text
  | modulePlaceholder => Placeholder.Named 'm' space text
  | anyDeclaration => ∃ name, Callable.Declares text name
  | layoutDeclaration => ∃ name, Callable.Declares text name ∧ Callable.OfLayout name
  | ownedDeclaration owner =>
    ∃ name, Callable.Declares text name ∧ Callable.Named owner.letter space name
  | moduleClass => ClassSelector.HasName bare ∧ ClassSelector.HasSpace space text

theorem accepts_iff_form {shape : Shape} {line : Line} {space : String} :
    shape.accepts line space = true ↔
      shape.Form space.toList line.text.toList (trimStart line.raw.toList) := by
  cases shape with
  | sectionComment => exact SectionComment.isSectionComment_iff
  | configVariable => exact Variable.isConfigVariable_iff
  | layoutVariable => exact Variable.isLayoutVariable_iff
  | ownedVariable owner => exact Variable.isOwnedVariable_iff
  | layoutPlaceholder => exact Placeholder.isLayoutPlaceholder_iff
  | componentPlaceholder => exact Placeholder.isComponentPlaceholder_iff
  | modulePlaceholder => exact Placeholder.isNamespacedPlaceholder_iff
  | anyDeclaration => exact Callable.isAnyDeclaration_iff
  | layoutDeclaration => exact Callable.isLayoutDeclaration_iff
  | ownedDeclaration owner => exact Callable.isOwnedDeclaration_iff
  | moduleClass =>
    rw [accepts, isModuleClass, Bool.and_eq_true, ClassSelector.hasClassName_iff,
      ClassSelector.hasClassSpace_iff]
    rfl

theorem accepts_ofString_iff {shape : Shape} {number : Nat} {source space : String} :
    shape.accepts (Line.ofString number source) space = true ↔
      shape.Form space.toList (trim source.toList) (trim source.toList) := by
  rw [accepts_iff_form, Line.text_ofString, Line.trimStart_raw_ofString]

/-- The kinds of lines that the form is one of. -/
def kinds : Shape → List LineKind
  | sectionComment => [.comment]
  | configVariable | layoutVariable | ownedVariable _ => [.variableDecl]
  | layoutPlaceholder | componentPlaceholder | modulePlaceholder => [.placeholder]
  | anyDeclaration | layoutDeclaration | ownedDeclaration _ => callables
  | moduleClass => [.classSelector]

theorem mem_kinds_of_find? {kind : LineKind} {role : Role} {shape : Shape} {fault : Fault}
    (h : Rule.find? kind role = some (.shaped shape fault)) : kind ∈ shape.kinds := by
  cases kind <;> cases role <;> cases h <;> decide

theorem kinds_eq (shape : Shape) :
    shape.kinds = callables ∨ ∃ kind, shape.kinds = [kind] := by
  cases shape with
  | anyDeclaration | layoutDeclaration | ownedDeclaration => exact Or.inl rfl
  | _ => exact Or.inr ⟨_, rfl⟩

theorem find?_callable {kind : LineKind} (h : kind ∈ callables) :
    ∃ misplaced misnamed, ∀ role,
      Rule.find? kind role = some (Rule.ofCallable misplaced misnamed role) := by
  have hmessages : ∃ misplaced misnamed, (kind, misplaced, misnamed) ∈ Callable.messages := by
    rcases mem_callables_iff.mp h with rfl | rfl
    · exact ⟨_, _, List.mem_cons_self⟩
    · exact ⟨_, _, List.mem_cons_of_mem _ List.mem_cons_self⟩
  obtain ⟨_, _, hmem⟩ := hmessages
  obtain ⟨misplaced, misnamed, -, -, hrule⟩ := Callable.exists_faults hmem
  exact ⟨misplaced, misnamed, hrule⟩

/-- A role that asks for the form in one kind of lines asks for it in all kinds that share it. -/
theorem find?_of_mem_kinds {kind other : LineKind} {role : Role} {shape : Shape} {fault : Fault}
    (h : Rule.find? kind role = some (.shaped shape fault)) (hother : other ∈ shape.kinds) :
    ∃ fault', Rule.find? other role = some (.shaped shape fault') := by
  have hkind := mem_kinds_of_find? h
  rcases shape.kinds_eq with hkinds | ⟨only, hkinds⟩
  · rw [hkinds] at hkind hother
    obtain ⟨misplaced, misnamed, hrule⟩ := find?_callable hkind
    obtain ⟨misplaced', misnamed', hrule'⟩ := find?_callable hother
    rw [hrule] at h
    rw [hrule']
    refine ⟨misnamed', ?_⟩
    cases role <;> cases h <;> rfl
  · rw [hkinds, List.mem_singleton] at hkind hother
    rw [hother, ← hkind]
    exact ⟨fault, h⟩

end Shape

def Owner.role : Owner → Role
  | component => .component
  | module => .module

theorem Rule.find?_ownedVariable (owner : Owner) :
    find? .variableDecl owner.role = some (shaped (.ownedVariable owner) .variableName) := by
  cases owner <;> rfl

theorem Rule.exists_find?_ownedDeclaration (owner : Owner) {kind : LineKind}
    (h : kind ∈ callables) :
    ∃ fault, find? kind owner.role = some (shaped (.ownedDeclaration owner) fault) := by
  obtain ⟨misplaced, misnamed, hrule⟩ := Shape.find?_callable h
  cases owner with
  | component => exact ⟨misnamed, hrule .component⟩
  | module => exact ⟨misnamed, hrule .module⟩

namespace SectionComment

theorem Framed.opens {text body : List Char} (h : Framed text body) : Opens text .comment := by
  obtain ⟨rfl, -⟩ := h
  refine ⟨⟨_, rfl⟩, fun htodo => ?_⟩
  -- behind the blanks after the slashes stands a dash, whatever the body is
  have hmark : opensTodo ("// -- ".toList ++ (body ++ " --".toList)) = true :=
    opensTodo_iff.mpr htodo
  exact absurd hmark Bool.false_ne_true

end SectionComment

/-- The characters of a name in a namespace, with the letter of its role. -/
theorem mem_owned_name {owner : Owner} {found own : List Char} (hspace : IsSpaceWord found)
    (hown : IsOwnWord own) :
    ∀ c ∈ owner.letter :: (found ++ '_' :: own), c.isAlphanum = true ∨ c = '_' := by
  have hletter : owner.letter.isAlphanum = true := by cases owner <;> decide
  refine List.forall_mem_cons.mpr ⟨Or.inl hletter, List.forall_mem_append.mpr ⟨?_, ?_⟩⟩
  · exact fun c hc => Or.inl (isAlphanum_of_isAlpha (hspace.isAlpha c hc))
  · exact List.forall_mem_cons.mpr ⟨Or.inr rfl, fun c hc => Or.inl (hown.isAlphanum c hc)⟩

theorem not_isBlank_of_nameChar {c : Char} (h : c.isAlphanum = true ∨ c = '_') :
    isBlank c = false := by
  rcases h with h | rfl
  · exact not_isBlank_of_isAlphanum h
  · decide

namespace Variable

variable {text word rest : List Char}

theorem OfConfig.opens (h : OfConfig text word rest) : Opens text .variableDecl := by
  obtain ⟨rfl, hword⟩ := h
  refine ⟨word, rest, rfl, hword.ne_nil, hword.forall (fun c hc => ?_) fun c hc => ?_⟩
  · exact not_isBlank_of_isAlphanum (isAlphanum_of_isAlpha (isAlpha_of_isLower hc))
  · exact not_isBlank_of_nameChar (by simpa using hc)

theorem OfLayout.opens (h : OfLayout text word rest) : Opens text .variableDecl := by
  obtain ⟨rfl, hword⟩ := h
  have hclear : ∀ c ∈ word, isBlank c = false := by
    refine hword.forall (fun c hc => ?_) fun c hc => not_isBlank_of_isAlphanum hc
    exact not_isBlank_of_isAlphanum (isAlphanum_of_isAlpha (isAlpha_of_isUpper hc))
  exact ⟨'l' :: word, rest, rfl, by simp, List.forall_mem_cons.mpr ⟨by decide, hclear⟩⟩

theorem Named.opens {owner : Owner} {found own : List Char}
    (h : Named owner.letter text found own rest) : Opens text .variableDecl := by
  obtain ⟨rfl, hspace, hown⟩ := h
  exact ⟨owner.letter :: (found ++ '_' :: own), rest, by simp, by simp,
    fun c hc => not_isBlank_of_nameChar (mem_owned_name hspace hown c hc)⟩

end Variable

namespace Placeholder

theorem OfLayout.opens {text : List Char} (h : OfLayout text) : Opens text .placeholder := by
  obtain ⟨word, stop, rest, rfl, -⟩ := h
  exact List.prefix_append ['%'] _

theorem Named.opens {letter : Char} {space text : List Char} (h : Named letter space text) :
    Opens text .placeholder := by
  obtain ⟨found, own, stop, rest, rfl, -⟩ := h
  exact List.prefix_append ['%'] _

theorem Bare.opens {space text : List Char} (h : Bare space text) : Opens text .placeholder := by
  obtain ⟨head, stop, rest, rfl, -⟩ := h
  exact List.prefix_append ['%'] _

end Placeholder

namespace Callable

theorem Declares.opens {text name : List Char} (h : Declares text name) :
    ∃ kind ∈ callables, Opens text kind := by
  obtain ⟨keyword, hkeyword, rest, rfl, -⟩ := h
  rcases List.mem_cons.mp hkeyword with rfl | hkeyword
  · exact ⟨.functionDecl, mem_callables_iff.mpr (Or.inl rfl), List.prefix_append _ _⟩
  · obtain rfl := List.mem_singleton.mp hkeyword
    exact ⟨.mixinDecl, mem_callables_iff.mpr (Or.inr rfl), List.prefix_append _ _⟩

end Callable

namespace ClassSelector

theorem HasName.opens {text : List Char} (h : HasName text) : Opens text .classSelector := by
  obtain ⟨name, stop, rest, rfl, -⟩ := h
  exact List.prefix_append ['.'] _

end ClassSelector

namespace Shape

/-- A text with the form starts like a line of one of the form's kinds. -/
theorem Form.opens {shape : Shape} {space text : List Char} (h : shape.Form space text text) :
    ∃ kind ∈ shape.kinds, Opens text kind := by
  cases shape with
  | sectionComment =>
    obtain ⟨body, hframed, -⟩ := h
    exact ⟨_, List.mem_singleton_self _, hframed.opens⟩
  | configVariable =>
    obtain ⟨word, rest, hword⟩ := h
    exact ⟨_, List.mem_singleton_self _, hword.opens⟩
  | layoutVariable =>
    obtain ⟨word, rest, hword⟩ := h
    exact ⟨_, List.mem_singleton_self _, hword.opens⟩
  | ownedVariable owner =>
    obtain ⟨found, own, rest, hnamed, -⟩ := h
    exact ⟨_, List.mem_singleton_self _, hnamed.opens⟩
  | layoutPlaceholder =>
    have hlayout : Placeholder.OfLayout text := h
    exact ⟨_, List.mem_singleton_self _, hlayout.opens⟩
  | componentPlaceholder =>
    rcases h with hnamed | hbare
    · exact ⟨_, List.mem_singleton_self _, hnamed.opens⟩
    · exact ⟨_, List.mem_singleton_self _, hbare.opens⟩
  | modulePlaceholder =>
    have hnamed : Placeholder.Named 'm' space text := h
    exact ⟨_, List.mem_singleton_self _, hnamed.opens⟩
  | anyDeclaration =>
    obtain ⟨name, hname⟩ := h
    exact hname.opens
  | layoutDeclaration =>
    obtain ⟨name, hname, -⟩ := h
    exact hname.opens
  | ownedDeclaration owner =>
    obtain ⟨name, hname, -⟩ := h
    exact hname.opens
  | moduleClass => exact ⟨_, List.mem_singleton_self _, h.1.opens⟩

/-- A record with the form is of one of the form's kinds, and every role that asks for the form
asks for it in that kind. No rule asks for the form in another kind of lines. -/
theorem accepts_routed :
    (∀ kind role shape fault, Rule.find? kind role = some (.shaped shape fault) →
      kind ∈ shape.kinds) ∧
    ∀ (shape : Shape) (number : Nat) (source space : String),
      let line := Line.ofString number source
      shape.accepts line space = true →
        ∃ kind ∈ shape.kinds, line.kind = some kind ∧
          ∀ other role fault, Rule.find? other role = some (.shaped shape fault) →
            (∃ fault', Rule.find? kind role = some (.shaped shape fault')) ∧
            line.message? role space = none := by
  refine ⟨fun kind role shape fault => mem_kinds_of_find?, ?_⟩
  intro shape number source space line haccepts
  obtain ⟨kind, hmem, hopens⟩ := (accepts_ofString_iff.mp haccepts).opens
  have hkind : line.kind = some kind := Line.kind_ofString_eq_some_iff.mpr hopens
  refine ⟨kind, hmem, hkind, fun other role fault hother => ?_⟩
  obtain ⟨fault', hrule⟩ := find?_of_mem_kinds hother hmem
  refine ⟨⟨fault', hrule⟩, ?_⟩
  rw [Line.message?_of_shaped hkind hrule Iff.rfl, if_pos haccepts]

/-- The rule for functions asks a layout's mixin for the form that it has. -/
theorem accepts_routed_of_grid :
    let line := Line.ofString 12 "\t@mixin lGrid($x) \x7b"
    layoutDeclaration.accepts line "" = true ∧
    Rule.find? .functionDecl .layout = some (.shaped layoutDeclaration .functionName) ∧
    (∃ kind ∈ callables, line.kind = some kind) ∧
    line.message? .layout "" = none := by
  intro line
  have haccepts : layoutDeclaration.accepts line "" = true := by decide +kernel
  have hrule : Rule.find? .functionDecl .layout =
      some (.shaped layoutDeclaration .functionName) := rfl
  obtain ⟨kind, hmem, hkind, hroutes⟩ := accepts_routed.2 layoutDeclaration 12 _ "" haccepts
  exact ⟨haccepts, hrule, ⟨kind, hmem, hkind⟩, (hroutes _ _ _ hrule).2⟩

end Shape

end SheetLint
