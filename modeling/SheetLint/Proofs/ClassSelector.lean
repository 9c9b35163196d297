import Mathlib.Tactic.SplitIfs
import SheetLint.Proofs.Words

/-!
# Class selectors

A module's class is read twice: once for the shape of its name, and once for the namespace at its
start, which is compared in lower case and may reach beyond the name. Over the characters of class
names the two readings describe one name. The namespace cannot reach beyond the name there, since
the name's terminator would then stand in the namespace.
-/

namespace SheetLint

open Text

namespace ClassSelector

/-- The characters of a class name. -/
def isClassChar (c : Char) : Bool := Shape.isClassEdge c || c == '-'

/-- At least two characters of a class name with no dash at either end. -/
def IsClassName (name : List Char) : Prop :=
  ∃ first inner last, name = first :: (inner ++ [last]) ∧ Shape.isClassEdge first = true ∧
    (∀ c ∈ inner, isClassChar c = true) ∧ Shape.isClassEdge last = true

/-- A dot, a class name and a character that ends it. -/
def HasName (text : List Char) : Prop :=
  ∃ name stop rest, text = '.' :: (name ++ stop :: rest) ∧ IsClassName name ∧
    stop ∈ ['{', ',', ':', '.', ' ']

/-- Behind the dot stands the namespace in any case, and a character that may follow it. -/
def HasSpace (space text : List Char) : Prop :=
  ∃ head stop rest, text = '.' :: (head ++ stop :: rest) ∧ byteLength head = byteLength space ∧
    lowercase head = space ∧ stop ∈ ['{', ',', ':', '.', '-', ' ']

theorem isClassChar_of_isClassEdge {c : Char} (h : Shape.isClassEdge c = true) :
    isClassChar c = true := by
  simp [isClassChar, h]

theorem isClassEdge_iff {c : Char} (h : isClassChar c = true) :
    Shape.isClassEdge c = true ↔ c ≠ '-' := by
  constructor
  · rintro he rfl
    exact absurd he (by decide)
  · intro hne
    simpa [isClassChar, hne] using h

theorem toNat_of_isClassChar {c : Char} (h : isClassChar c = true) :
    c.toNat = 45 ∨ (97 ≤ c.toNat ∧ c.toNat ≤ 122) ∨ (48 ≤ c.toNat ∧ c.toNat ≤ 57) := by
  simp only [isClassChar, Shape.isClassEdge, Bool.or_eq_true, beq_iff_eq] at h
  rcases h with (h | h) | rfl
  · exact Or.inr (Or.inl (toNat_of_isLower h))
  · exact Or.inr (Or.inr (toNat_of_isDigit h))
  · exact Or.inl rfl

theorem toNat_lt_of_isClassChar {c : Char} (h : isClassChar c = true) : c.toNat < 128 := by
  have := toNat_of_isClassChar h
  omega

/-- A character of class names is its own lowercase form. -/
theorem toLower_of_isClassChar {c : Char} (h : isClassChar c = true) : c.toLower = c :=
  forall_ascii (P := fun c => isClassChar c = true → c.toLower = c) (by decide)
    (toNat_lt_of_isClassChar h) h

theorem lowercase_of_isClassChar {cs : List Char} (h : ∀ c ∈ cs, isClassChar c = true) :
    lowercase cs = cs := by
  rw [lowercase_ascii fun c hc => toNat_lt_of_isClassChar (h c hc)]
  exact (List.map_congr_left fun c hc => toLower_of_isClassChar (h c hc)).trans (List.map_id cs)

theorem not_isClassChar_of_stop {stop : Char} (h : stop ∈ ['{', ',', ':', '.', ' ']) :
    isClassChar stop = false :=
  forall_terminator (P := fun c => isClassChar c = false) (by decide) h

theorem IsClassName.all {name : List Char} (h : IsClassName name) :
    ∀ c ∈ name, isClassChar c = true := by
  obtain ⟨first, inner, last, rfl, hfirst, hinner, hlast⟩ := h
  intro c hc
  simp only [List.mem_cons, List.mem_append, List.not_mem_nil, or_false] at hc
  rcases hc with rfl | hc | rfl
  · exact isClassChar_of_isClassEdge hfirst
  · exact hinner c hc
  · exact isClassChar_of_isClassEdge hlast

/-- A class name is told by its length and its two ends. -/
theorem isClassName_iff {name : List Char} (h : ∀ c ∈ name, isClassChar c = true) :
    IsClassName name ↔
      2 ≤ name.length ∧ name.head? ≠ some '-' ∧ name.getLast? ≠ some '-' := by
  constructor
  · rintro ⟨first, inner, last, rfl, hfirst, -, hlast⟩
    have hf := (isClassEdge_iff (isClassChar_of_isClassEdge hfirst)).mp hfirst
    have hl := (isClassEdge_iff (isClassChar_of_isClassEdge hlast)).mp hlast
    refine ⟨by simp, by simpa using hf, ?_⟩
    rw [← List.cons_append, List.getLast?_concat]
    simpa using hl
  · rintro ⟨hlen, hhead, hlast⟩
    cases name with
    | nil => simp at hlen
    | cons first tail =>
      rcases List.eq_nil_or_concat tail with rfl | ⟨inner, last, htail⟩
      · simp at hlen
      · rw [List.concat_eq_append] at htail
        subst htail
        rw [← List.cons_append, List.getLast?_concat] at hlast
        refine ⟨first, inner, last, rfl, ?_, fun c hc => h c (by simp [hc]), ?_⟩
        · exact (isClassEdge_iff (h first (by simp))).mpr (by simpa using hhead)
        · exact (isClassEdge_iff (h last (by simp))).mpr (by simpa using hlast)

/-- The name that a class has, if it has one, is the longest run behind the dot. -/
theorem hasName_cons_iff {cs : List Char} :
    HasName ('.' :: cs) ↔ IsClassName (cs.takeWhile isClassChar) ∧
      begins endsPlaceholder (cs.dropWhile isClassChar) = true := by
  constructor
  · rintro ⟨name, stop, rest, htext, hname, hstop⟩
    have hcs : cs = name ++ stop :: rest := by simpa using htext
    have hrest : begins isClassChar (stop :: rest) = false := not_isClassChar_of_stop hstop
    rw [hcs, takeWhile_append_of_begins hname.all hrest,
      dropWhile_append_of_begins hname.all hrest]
    exact ⟨hname, endsPlaceholder_iff.mpr hstop⟩
  · rintro ⟨hname, hbegins⟩
    obtain ⟨stop, rest, hrest, hstop⟩ := begins_eq_true_iff.mp hbegins
    refine ⟨_, stop, rest, ?_, hname, endsPlaceholder_iff.mp hstop⟩
    rw [← hrest, List.takeWhile_append_dropWhile]

theorem begins_isClassEdge_iff {cs : List Char} (h : ∀ c ∈ cs, isClassChar c = true)
    (hne : cs ≠ []) : begins Shape.isClassEdge cs = true ↔ cs.head? ≠ some '-' := by
  cases cs with
  | nil => exact absurd rfl hne
  | cons c cs => simpa [begins] using isClassEdge_iff (h c (by simp))

theorem isClassName_iff_begins {name : List Char} (h : ∀ c ∈ name, isClassChar c = true) :
    IsClassName name ↔ begins Shape.isClassEdge name = true ∧
      begins Shape.isClassEdge name.reverse = true ∧ 2 ≤ name.length := by
  by_cases hne : name = []
  · subst hne
    simp [isClassName_iff, begins]
  · have hreverse : ∀ c ∈ name.reverse, isClassChar c = true :=
      fun c hc => h c (List.mem_reverse.mp hc)
    rw [isClassName_iff h, begins_isClassEdge_iff h hne,
      begins_isClassEdge_iff hreverse (by simpa using hne), List.head?_reverse]
    constructor
    · rintro ⟨hlen, hhead, hlast⟩
      exact ⟨hhead, hlast, hlen⟩
    · rintro ⟨hhead, hlast, hlen⟩
      exact ⟨hlen, hhead, hlast⟩

theorem drop_length_takeWhile (p : Char → Bool) (cs : List Char) :
    cs.drop (cs.takeWhile p).length = cs.dropWhile p := by
  have hsplit : cs.takeWhile p ++ cs.dropWhile p = cs := List.takeWhile_append_dropWhile
  calc cs.drop (cs.takeWhile p).length
      = (cs.takeWhile p ++ cs.dropWhile p).drop (cs.takeWhile p).length := by rw [hsplit]
    _ = cs.dropWhile p := List.drop_left

theorem hasClassName_iff {raw : List Char} :
    Shape.hasClassName raw = true ↔ HasName (trimStart raw) := by
  unfold Shape.hasClassName
  split
  · next cs htext =>
    rw [htext, hasName_cons_iff, isClassName_iff_begins all_takeWhile, ← drop_length_takeWhile]
    simp only [Bool.and_eq_true, decide_eq_true_eq, and_assoc]
    rfl
  · next hno =>
    refine ⟨fun h => absurd h Bool.false_ne_true, ?_⟩
    rintro ⟨name, stop, rest, htext, -⟩
    exact absurd htext (hno _)

theorem hasClassSpace_iff {space text : List Char} :
    Shape.hasClassSpace space text = true ↔ HasSpace space text := by
  constructor
  · intro h
    unfold Shape.hasClassSpace at h
    split at h
    · next cs =>
      split at h
      · next rest hafter =>
        obtain ⟨head, rfl, hlen, hlow⟩ := afterNamespace?_eq_some_iff.mp hafter
        obtain ⟨stop, rest, rfl, hstop⟩ := begins_eq_true_iff.mp h
        exact ⟨head, stop, rest, rfl, hlen, hlow, endsClassSpace_iff.mp hstop⟩
      · simp at h
    · simp at h
  · rintro ⟨head, stop, rest, rfl, hlen, hlow, hstop⟩
    have hafter : afterNamespace? space (head ++ stop :: rest) = some (stop :: rest) :=
      afterNamespace?_eq_some_iff.mpr ⟨head, rfl, hlen, hlow⟩
    have hbegins : begins endsClassSpace (stop :: rest) = true := endsClassSpace_iff.mpr hstop
    simpa only [Shape.hasClassSpace, hafter] using hbegins

/-- A namespace of class characters that stands behind the dot is the name or a part of it that ends
at a dash. -/
theorem hasSpace_iff_of_name {space name rest : List Char} {stop : Char}
    (hspace : ∀ c ∈ space, isClassChar c = true) (hname : ∀ c ∈ name, isClassChar c = true)
    (hstop : stop ∈ ['{', ',', ':', '.', ' ']) :
    HasSpace space ('.' :: (name ++ stop :: rest)) ↔ name = space ∨ space ++ ['-'] <+: name := by
  constructor
  · rintro ⟨head, stop', rest', htext, -, hlow, hstop'⟩
    have hcs : name ++ stop :: rest = head ++ stop' :: rest' := by simpa using htext
    rcases List.append_eq_append_iff.mp hcs with ⟨extra, hhead, hover⟩ | ⟨extra, hover, hrest⟩
    · cases extra with
      | nil =>
        left
        rw [List.append_nil] at hhead
        rw [← hlow, hhead, lowercase_of_isClassChar hname]
      | cons c extra =>
        -- the name's terminator would be a character of the namespace
        obtain ⟨rfl, -⟩ := List.cons.inj hover
        have hascii : stop.toNat < 128 ∧ stop.toLower = stop :=
          forall_terminator (P := fun c => c.toNat < 128 ∧ c.toLower = c) (by decide) hstop
        have hmem : stop ∈ space := by
          rw [← hlow]
          have hlower : stop.toLower ∈ lowercase head :=
            toLower_mem_lowercase hascii.1 (by simp [hhead])
          rwa [hascii.2] at hlower
        have := not_isClassChar_of_stop hstop
        rw [hspace stop hmem] at this
        cases this
    · have hhead : head = space := by
        rw [← hlow, lowercase_of_isClassChar fun c hc => hname c (by simp [hover, hc])]
      cases extra with
      | nil =>
        left
        rw [hover, List.append_nil, hhead]
      | cons c extra =>
        obtain ⟨rfl, -⟩ := List.cons.inj hrest
        have hdash : stop' = '-' := by
          have hclass := hname stop' (by simp [hover])
          simp only [List.mem_cons, List.not_mem_nil, or_false] at hstop'
          rcases hstop' with rfl | rfl | rfl | rfl | rfl | rfl
          all_goals first | rfl | exact absurd hclass (by decide)
        right
        exact ⟨extra, by rw [hover, hhead, hdash]; simp⟩
  · have hlow := lowercase_of_isClassChar hspace
    rintro (rfl | ⟨extra, rfl⟩)
    · have hstop' : stop ∈ ['{', ',', ':', '.', '-', ' '] :=
        forall_terminator (P := (· ∈ ['{', ',', ':', '.', '-', ' '])) (by decide) hstop
      exact ⟨name, stop, rest, rfl, rfl, hlow, hstop'⟩
    · exact ⟨space, '-', extra ++ stop :: rest, by simp, rfl, hlow, by decide⟩

/-- A class line begins with a dot. -/
theorem exists_text_of_classSelector {number : Nat} {source : String}
    (h : (Line.ofString number source).kind = some .classSelector) :
    ∃ cs, trim source.toList = '.' :: cs := by
  have hopens : LineKind.opensClass (trimEnd source.toList) = true := by
    simp only [Line.ofString, LineKind.ofText?] at h
    split_ifs at h <;> first | assumption | cases h
  obtain ⟨cs, hcs⟩ := Option.isSome_iff_exists.mp hopens
  exact ⟨cs, afterStart?_eq_some_iff.mp hcs⟩

open Classical in
/-- A class is out of place everywhere but in a module. There its line is read for a name and for
the namespace, and where the namespace could be a class name itself, the name has to be the
namespace or to go on behind it with a dash. -/
theorem message?_classSelector (number : Nat) (source space : String)
    (h : (Line.ofString number source).kind = some .classSelector) :
    let line := Line.ofString number source
    let text := trim source.toList
    (∀ role ≠ Role.module,
      line.message? role space = some "class selectors not permitted here") ∧
    (line.message? .module space =
      if HasName text ∧ HasSpace space.toList text then none
      else some "invalid class selector name") ∧
    ∃ cs, text = '.' :: cs ∧ ((∀ c ∈ space.toList, isClassChar c = true) →
      let name := cs.takeWhile isClassChar
      (line.message? .module space = none ↔
        2 ≤ name.length ∧ name.head? ≠ some '-' ∧ name.getLast? ≠ some '-' ∧
        begins endsPlaceholder (cs.dropWhile isClassChar) = true ∧
        (name = space.toList ∨ space.toList ++ ['-'] <+: name))) := by
  intro line text
  have hmodule : line.message? .module space =
      if HasName text ∧ HasSpace space.toList text then none
      else some "invalid class selector name" := by
    have hrule : Rule.find? .classSelector .module = some (.shaped .moduleClass .className) := rfl
    apply Line.message?_of_shaped h hrule
    rw [Shape.accepts, Shape.isModuleClass, Bool.and_eq_true, hasClassName_iff, hasClassSpace_iff,
      Line.text_ofString, Line.trimStart_raw_ofString]
  obtain ⟨cs, hcs⟩ := exists_text_of_classSelector h
  refine ⟨?_, hmodule, cs, hcs, ?_⟩
  · intro role hrole
    have hrule : Rule.find? .classSelector role = some (.forbidden .classMisplaced) := by
      cases role with
      | module => exact absurd rfl hrole
      | _ => rfl
    exact Line.message?_of_forbidden h hrule space
  · intro hspace name
    have hnone : line.message? .module space = none ↔
        HasName text ∧ HasSpace space.toList text := by
      rw [hmodule]
      simp
    have hclass : HasName text ↔ IsClassName name ∧
        begins endsPlaceholder (cs.dropWhile isClassChar) = true := by
      rw [show text = '.' :: cs from hcs]
      exact hasName_cons_iff
    have hname : ∀ c ∈ name, isClassChar c = true := all_takeWhile
    rw [hnone, hclass, ← and_assoc, ← and_assoc, ← and_assoc, and_assoc (a := 2 ≤ name.length),
      ← isClassName_iff hname]
    refine and_congr_right fun ⟨_, hbegins⟩ => ?_
    obtain ⟨stop, rest, hrest, hstop⟩ := begins_eq_true_iff.mp hbegins
    have htext : text = '.' :: (name ++ stop :: rest) := by
      rw [← hrest, List.takeWhile_append_dropWhile]
      exact hcs
    rw [htext]
    exact hasSpace_iff_of_name hspace hname (endsPlaceholder_iff.mp hstop)

theorem message?_classSelector_of_title :
    let line := Line.ofString 7 "\t.page-title:hover, .x"
    line.kind = some .classSelector ∧
    line.message? .style "page" = some "class selectors not permitted here" ∧
    line.message? .module "page" = none ∧
    line.message? .module "page-" = some "invalid class selector name" := by
  have hkind : (Line.ofString 7 "\t.page-title:hover, .x").kind = some .classSelector := by
    decide +kernel
  have hcs : trim "\t.page-title:hover, .x".toList = '.' :: "page-title:hover, .x".toList := by
    decide +kernel
  obtain ⟨hforbidden, -, cs, hcs', hpage⟩ := message?_classSelector 7 _ "page" hkind
  obtain ⟨-, hmodule, cs'', hcs'', hdash⟩ := message?_classSelector 7 _ "page-" hkind
  cases List.cons.inj (hcs.symm.trans hcs') |>.2
  cases List.cons.inj (hcs.symm.trans hcs'') |>.2
  have hspace : ∀ c ∈ "page".toList, isClassChar c = true := List.all_eq_true.mp (by decide)
  have hspace' : ∀ c ∈ "page-".toList, isClassChar c = true := List.all_eq_true.mp (by decide)
  refine ⟨hkind, hforbidden .style (by decide), (hpage hspace).mpr ?_, ?_⟩
  · decide +kernel
  · refine hmodule.trans (if_neg fun hform => ?_)
    have haccepted := (hdash hspace').mp (hmodule.trans (if_pos hform))
    exact absurd haccepted (by decide +kernel)

end ClassSelector

end SheetLint
