import SheetLint.Proofs.Form

/-!
# Names have one owner

A name in a component or a module says whose it is: behind the sigil stand the letter of the role
and the namespace in some case, up to the first character that no namespace has. That run is the
longest one, wherever the name is cut in looking for its parts, so a text that is well-formed in two
files is so in files of one role and one namespace. The bare name of a component is cut at a
terminator only. It is a name with the same run as long as its namespace has neither terminators nor
underscores in it.
-/

namespace SheetLint

open Text LineKind

/-- The rule for the kind of line in the role asks for a shape, and the line has it. -/
def Line.Suits (line : Line) (kind : LineKind) (role : Role) (space : String) : Prop :=
  ∃ shape fault, Rule.find? kind role = some (.shaped shape fault) ∧
    shape.accepts line space = true

theorem Line.Suits.form {line : Line} {kind : LineKind} {role : Role} {shape : Shape}
    {fault : Fault} {space : String} (h : line.Suits kind role space)
    (hrule : Rule.find? kind role = some (.shaped shape fault)) :
    shape.Form space.toList line.text.toList (trimStart line.raw.toList) := by
  obtain ⟨_, _, hrule', haccepts⟩ := h
  cases hrule.symm.trans hrule'
  exact Shape.accepts_iff_form.mp haccepts

namespace Ownership

/-- The kinds of lines with a name on them that belongs to a role. -/
def kinds : List LineKind := .variableDecl :: .placeholder :: callables

/-- What the line names, with the letter of its role. -/
def Names (text name : List Char) : LineKind → Prop
  | .variableDecl => text = '$' :: name
  | .placeholder => text = '%' :: name
  | .functionDecl | .mixinDecl => Callable.Declares text name
  | .comment | .todo | .classSelector => False

theorem mem_kinds_iff {kind : LineKind} :
    kind ∈ kinds ↔ kind = .variableDecl ∨ kind = .placeholder ∨ kind ∈ callables := by
  rw [kinds, List.mem_cons, List.mem_cons]

theorem names_callable_iff {kind : LineKind} (h : kind ∈ callables) {text name : List Char} :
    Names text name kind ↔ Callable.Declares text name := by
  rcases mem_callables_iff.mp h with rfl | rfl
  · exact Iff.rfl
  · exact Iff.rfl

theorem Names.unique {kind : LineKind} {text name name' : List Char} (h : Names text name kind)
    (h' : Names text name' kind) : name = name' := by
  cases kind with
  | variableDecl => exact (List.cons.inj (h.symm.trans h')).2
  | placeholder => exact (List.cons.inj (h.symm.trans h')).2
  | functionDecl | mixinDecl =>
    have hdeclared := Callable.declaredName?_eq_some_iff.mpr h
    rw [Callable.declaredName?_eq_some_iff.mpr h'] at hdeclared
    exact (Option.some.inj hdeclared).symm
  | comment | todo | classSelector => exact False.elim h

/-- The characters that may end a namespace in a name. -/
def endsSpace (c : Char) : Bool := ['{', ',', ':', '.', ' ', '_'].contains c

/-- A text without characters that may end a namespace. -/
def IsPlain (cs : List Char) : Prop := ∀ c ∈ cs, endsSpace c = false

instance : DecidablePred IsPlain :=
  fun cs => List.decidableBAll (fun c => endsSpace c = false) cs

/-- The owner's letter and the namespace in some case, up to a character that ends it. -/
def Marked (owner : Owner) (space name : List Char) : Prop :=
  ∃ head stop rest, name = owner.letter :: (head ++ stop :: rest) ∧ IsPlain head ∧
    endsSpace stop = true ∧ lowercase head = space

/-- What ends a namespace is no letter and has no case. -/
theorem of_endsSpace {c : Char} (h : endsSpace c = true) :
    c.isAlphanum = false ∧ c.toNat < 128 ∧ c.toLower = c := by
  have hall : ∀ d ∈ ['{', ',', ':', '.', ' ', '_'],
      d.isAlphanum = false ∧ d.toNat < 128 ∧ d.toLower = d := by simp
  exact hall c (List.contains_iff_mem.mp h)

theorem IsPlain.of_isSpaceWord {found : List Char} (h : IsSpaceWord found) : IsPlain found := by
  intro c hc
  have hletter := isAlphanum_of_isAlpha (h.isAlpha c hc)
  by_contra hends
  rw [Bool.not_eq_false] at hends
  exact Bool.false_ne_true ((of_endsSpace hends).1.symm.trans hletter)

theorem IsPlain.of_lowercase {cs : List Char} (h : IsPlain (lowercase cs)) : IsPlain cs := by
  intro c hc
  by_contra hends
  rw [Bool.not_eq_false] at hends
  obtain ⟨-, hascii, hlower⟩ := of_endsSpace hends
  have hmem := toLower_mem_lowercase hascii hc
  rw [hlower] at hmem
  exact Bool.false_ne_true ((h c hmem).symm.trans hends)

theorem takeWhile_of_isPlain {head rest : List Char} {stop : Char} (h : IsPlain head)
    (hstop : endsSpace stop = true) :
    (head ++ stop :: rest).takeWhile (fun c => !endsSpace c) = head := by
  refine takeWhile_append_of_begins (fun c hc => ?_) ?_
  · rw [h c hc, Bool.not_false]
  · rw [begins, hstop, Bool.not_true]

theorem eq_of_letter_eq {owner owner' : Owner} (h : owner.letter = owner'.letter) :
    owner = owner' := by
  revert h
  cases owner <;> cases owner' <;> decide

/-- The namespace is the longest run of characters that do not end it. -/
theorem Marked.unique {owner owner' : Owner} {space space' name : List Char}
    (h : Marked owner space name) (h' : Marked owner' space' name) :
    owner = owner' ∧ space = space' := by
  obtain ⟨head, stop, rest, rfl, hplain, hstop, rfl⟩ := h
  obtain ⟨head', stop', rest', hname, hplain', hstop', rfl⟩ := h'
  obtain ⟨hletter, hcs⟩ := List.cons.inj hname
  have hhead : head = head' :=
    calc head = (head ++ stop :: rest).takeWhile (fun c => !endsSpace c) :=
          (takeWhile_of_isPlain hplain hstop).symm
      _ = (head' ++ stop' :: rest').takeWhile (fun c => !endsSpace c) := by rw [hcs]
      _ = head' := takeWhile_of_isPlain hplain' hstop'
  exact ⟨eq_of_letter_eq hletter, congrArg lowercase hhead⟩

theorem Marked.of_isSpaceWord (owner : Owner) {found space : List Char} (h : IsSpaceWord found)
    (hlow : lowercase found = space) (behind : List Char) :
    Marked owner space (owner.letter :: (found ++ '_' :: behind)) :=
  ⟨found, '_', behind, rfl, .of_isSpaceWord h, rfl, hlow⟩

theorem Marked.of_bare {head space rest : List Char} {stop : Char}
    (hstop : stop ∈ Placeholder.terminators) (hlow : lowercase head = space)
    (hplain : IsPlain space) : Marked .component space ('c' :: (head ++ stop :: rest)) := by
  have hends : endsSpace stop = true :=
    forall_terminator (P := fun c => endsSpace c = true) (by decide) hstop
  subst hlow
  exact ⟨head, stop, rest, rfl, .of_lowercase hplain, hends, rfl⟩

/-- The line names something with the owner's letter, and the namespace stands behind the letter. In
a placeholder that needs a namespace without characters that end it. -/
def Owned (kind : LineKind) (owner : Owner) (space text : List Char) : Prop :=
  ∃ name, Names text name kind ∧ name.head? = some owner.letter ∧
    ((kind = .placeholder → IsPlain space) → Marked owner space name)

variable {line line' : Line} {kind : LineKind} {owner owner' : Owner} {space space' : String}

theorem owned_of_variable (h : line.Suits .variableDecl owner.role space) :
    Owned .variableDecl owner space.toList line.text.toList := by
  obtain ⟨found, own, rest, ⟨htext, hspace, -⟩, hlow⟩ := h.form (Rule.find?_ownedVariable owner)
  exact ⟨_, htext, rfl, fun _ => .of_isSpaceWord owner hspace hlow _⟩

theorem owned_of_callable (hkind : kind ∈ callables) (h : line.Suits kind owner.role space) :
    Owned kind owner space.toList line.text.toList := by
  obtain ⟨fault, hrule⟩ := Rule.exists_find?_ownedDeclaration owner hkind
  obtain ⟨name, hdeclares, found, own, rfl, hspace, -, hlow⟩ := h.form hrule
  exact ⟨_, (names_callable_iff hkind).mpr hdeclares, rfl,
    fun _ => .of_isSpaceWord owner hspace hlow _⟩

theorem owned_of_named {space text : List Char} (h : Placeholder.Named owner.letter space text) :
    Owned .placeholder owner space text := by
  obtain ⟨found, own, stop, rest, htext, hspace, -, -, hlow⟩ := h
  exact ⟨_, htext, rfl, fun _ => .of_isSpaceWord owner hspace hlow _⟩

theorem owned_of_bare {space text : List Char} (h : Placeholder.Bare space text) :
    Owned .placeholder .component space text := by
  obtain ⟨head, stop, rest, htext, -, -, hlow, hstop⟩ := h
  -- the head of a bare name may hold an underscore, and then the run ends within it
  exact ⟨_, htext, rfl, fun hplain => .of_bare hstop hlow (hplain rfl)⟩

theorem owned_of_placeholder (h : line.Suits .placeholder owner.role space) :
    Owned .placeholder owner space.toList line.text.toList := by
  cases owner with
  | component =>
    have hrule : Rule.find? .placeholder .component =
        some (.shaped .componentPlaceholder .placeholderName) := rfl
    rcases h.form hrule with hnamed | hbare
    · exact owned_of_named hnamed
    · exact owned_of_bare hbare
  | module =>
    have hrule : Rule.find? .placeholder .module =
        some (.shaped .modulePlaceholder .placeholderName) := rfl
    exact owned_of_named (h.form hrule)

theorem owned_of_suits (hkind : kind ∈ kinds) (h : line.Suits kind owner.role space) :
    Owned kind owner space.toList line.text.toList := by
  rcases mem_kinds_iff.mp hkind with rfl | rfl | hcallable
  · exact owned_of_variable h
  · exact owned_of_placeholder h
  · exact owned_of_callable hcallable h

/-- A layout's names begin with a letter that no owner has. -/
theorem exists_name_of_layout (hkind : kind ∈ kinds) (h : line.Suits kind .layout space) :
    ∃ name, Names line.text.toList name kind ∧ name.head? = some 'l' := by
  rcases mem_kinds_iff.mp hkind with rfl | rfl | hcallable
  · have hrule : Rule.find? .variableDecl .layout =
        some (.shaped .layoutVariable .variableName) := rfl
    obtain ⟨word, rest, htext, -⟩ := h.form hrule
    exact ⟨_, htext, rfl⟩
  · have hrule : Rule.find? .placeholder .layout =
        some (.shaped .layoutPlaceholder .placeholderName) := rfl
    obtain ⟨word, stop, rest, htext, -⟩ := h.form hrule
    exact ⟨_, htext, rfl⟩
  · obtain ⟨misplaced, misnamed, hrule⟩ := Shape.find?_callable hcallable
    obtain ⟨name, hdeclares, word, rfl, -⟩ := h.form (hrule .layout)
    exact ⟨_, (names_callable_iff hcallable).mpr hdeclares, rfl⟩

theorem letter_ne (owner : Owner) : owner.letter ≠ 'l' := by
  cases owner <;> decide

/-- A text that suits the rules of a kind in two files of components or modules suits them in one
role and one namespace only, and it does not suit the rules of a layout as well. For a placeholder
the two namespaces must have no terminators and no underscores in them. -/
theorem suits_unique (hkind : kind ∈ kinds) (htext : line.text = line'.text) :
    (∀ (owner owner' : Owner) (space space' : String),
      (kind = .placeholder → IsPlain space.toList ∧ IsPlain space'.toList) →
      line.Suits kind owner.role space → line'.Suits kind owner'.role space' →
        owner = owner' ∧ space = space') ∧
    ∀ (owner : Owner) (space space' : String),
      line.Suits kind .layout space → ¬ line'.Suits kind owner.role space' := by
  constructor
  · intro owner owner' space space' hplain h h'
    obtain ⟨name, hname, -, hmarked⟩ := owned_of_suits hkind h
    obtain ⟨name', hname', -, hmarked'⟩ := owned_of_suits hkind h'
    rw [htext] at hname
    obtain rfl := hname.unique hname'
    obtain ⟨howner, hspace⟩ :=
      (hmarked fun hp => (hplain hp).1).unique (hmarked' fun hp => (hplain hp).2)
    exact ⟨howner, String.toList_inj.mp hspace⟩
  · intro owner space space' h h'
    obtain ⟨name, hname, hletter⟩ := exists_name_of_layout hkind h
    obtain ⟨name', hname', hletter', -⟩ := owned_of_suits hkind h'
    rw [htext] at hname
    obtain rfl := hname.unique hname'
    rw [hletter] at hletter'
    exact letter_ne owner (Option.some.inj hletter').symm

/-- The name of an item of the navigation area is no name in a module, in another component or in a
layout. -/
theorem suits_unique_of_navArea :
    let line := Line.ofString 3 "  %cNavArea_item:hover"
    line.Suits .placeholder .component "navarea" ∧ ¬ line.Suits .placeholder .module "navarea" ∧
    ¬ line.Suits .placeholder .component "nav" ∧ ¬ line.Suits .placeholder .layout "" := by
  intro line
  have hsuits : line.Suits .placeholder Owner.component.role "navarea" :=
    ⟨.componentPlaceholder, .placeholderName, rfl, by decide +kernel⟩
  have hkind : LineKind.placeholder ∈ kinds := by decide
  have hplain : IsPlain "navarea".toList ∧ IsPlain "nav".toList := by decide
  obtain ⟨hunique, hlayout⟩ := suits_unique hkind (rfl : line.text = line.text)
  refine ⟨hsuits, fun h => ?_, fun h => ?_, fun h => hlayout .component _ _ h hsuits⟩
  · obtain ⟨howner, -⟩ := hunique .component .module _ _ (fun _ => ⟨hplain.1, hplain.1⟩) hsuits h
    cases howner
  · obtain ⟨-, hspace⟩ := hunique .component .component _ _ (fun _ => hplain) hsuits h
    exact absurd hspace (by decide)

/-- A namespace with an underscore in it can be meant by the name of something else. -/
example :
    Shape.componentPlaceholder.accepts (Line.ofString 1 "%cNav_bar.x") "nav" = true ∧
    Shape.componentPlaceholder.accepts (Line.ofString 1 "%cNav_bar.x") "nav_bar" = true := by
  decide +kernel

end Ownership

end SheetLint
