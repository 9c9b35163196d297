import SheetLint.Proofs.Text.Lowercase
import SheetLint.Proofs.Words

/-!
# Namespaces in ASCII

The namespace is looked for in as many bytes at the start of the text as it has itself, and those
are compared in lower case. Characters outside ASCII can have a lowercase form in ASCII, such as the
Kelvin sign, so the comparison alone could take one for a letter of the namespace. The number of
bytes rules this out: an ASCII lowercase form has one character for each character of the text, and
only an ASCII text has as few bytes as characters. So an ASCII namespace without capital letters is
found exactly where it stands in ASCII letters of any case.
-/

namespace SheetLint

open Text

/-- The two texts are the same but for the case of their ASCII letters. -/
def EqFold (cs ds : List Char) : Prop := cs.map Char.toLower = ds.map Char.toLower

instance (cs ds : List Char) : Decidable (EqFold cs ds) :=
  inferInstanceAs (Decidable (cs.map Char.toLower = ds.map Char.toLower))

namespace EqFold

variable {cs ds : List Char}

theorem length_eq (h : EqFold cs ds) : cs.length = ds.length := by
  simpa using congrArg List.length h

theorem isAscii (h : EqFold cs ds) (hds : IsAscii ds) : IsAscii cs := by
  intro c hc
  have hmem : c.toLower ∈ ds.map Char.toLower := h ▸ List.mem_map_of_mem hc
  obtain ⟨d, hd, heq⟩ := List.mem_map.mp hmem
  have hlower : c.toLower.toNat < 128 := heq ▸ toNat_toLower_ascii (hds d hd)
  exact toNat_lt_of_toLower hlower

end EqFold

section Small

variable {space head : List Char} (hascii : IsAscii space)
  (hsmall : ∀ c ∈ space, c.isUpper = false)

include hascii in
/-- What is compared with an ASCII namespace and found equal to it is ASCII itself. -/
theorem isAscii_of_lowercase_eq (hlen : byteLength head = byteLength space)
    (hlow : lowercase head = space) : IsAscii head := by
  have hform : IsAscii (lowercase head) := by rwa [hlow]
  have hbytes : byteLength head = head.length :=
    calc byteLength head
        = byteLength space := hlen
      _ = space.length := byteLength_ascii hascii
      _ = (lowercase head).length := by rw [hlow]
      _ = head.length := length_lowercase_of_isAscii hform
  exact isAscii_of_byteLength_le hbytes.le

include hsmall in
theorem map_toLower_of_small : space.map Char.toLower = space :=
  calc space.map Char.toLower
      = space.map id := List.map_congr_left fun c hc => toLower_of_not_isUpper (hsmall c hc)
    _ = space := List.map_id space

include hascii hsmall in
theorem lowercase_eq_iff_eqFold :
    byteLength head = byteLength space ∧ lowercase head = space ↔ EqFold head space := by
  constructor
  · rintro ⟨hlen, hlow⟩
    have hhead : IsAscii head := isAscii_of_lowercase_eq hascii hlen hlow
    rw [EqFold, map_toLower_of_small hsmall, ← lowercase_ascii hhead, hlow]
  · intro hfold
    have hhead : IsAscii head := hfold.isAscii hascii
    constructor
    · rw [byteLength_ascii hhead, byteLength_ascii hascii, hfold.length_eq]
    · rw [lowercase_ascii hhead, hfold, map_toLower_of_small hsmall]

end Small

/-- There is no cut inside a character. -/
theorem afterNamespace?_inside {space before behind : List Char} {c : Char}
    (hbefore : (encode before).length < (encode space).length)
    (hbehind : (encode space).length < (encode (before ++ [c])).length) :
    afterNamespace? space (before ++ c :: behind) = none := by
  rw [Option.eq_none_iff_forall_ne_some]
  intro rest hrest
  obtain ⟨head, hsubject, hlen, -⟩ := afterNamespace?_eq_some_iff.mp hrest
  rw [← length_encode, ← length_encode] at hlen
  rw [encode_append, List.length_append] at hbehind
  rcases List.append_eq_append_iff.mp hsubject with ⟨more, rfl, hmore⟩ | ⟨more, rfl, -⟩
  · cases more with
    | nil =>
      rw [List.append_nil] at hlen
      omega
    | cons d more =>
      obtain ⟨rfl, -⟩ := List.cons.inj hmore
      have hsplit : before ++ c :: more = before ++ [c] ++ more := by simp
      rw [hsplit, encode_append, encode_append, List.length_append, List.length_append] at hlen
      omega
  · rw [encode_append, List.length_append] at hbefore
    omega

/-- An ASCII namespace without capitals is cut off a text that starts with as many characters, the
same but for the case of ASCII letters, and off no other. What is cut off is ASCII. Where the length
of the namespace ends inside a character, nothing is cut off. -/
theorem afterNamespace?_ascii {space : List Char} (hascii : IsAscii space)
    (hsmall : ∀ c ∈ space, c.isUpper = false) (subject : List Char) :
    (∀ rest, afterNamespace? space subject = some rest ↔
      ∃ head, subject = head ++ rest ∧ head.length = space.length ∧ EqFold head space) ∧
    (∀ head rest, subject = head ++ rest → afterNamespace? space subject = some rest →
      IsAscii head) ∧
    (∀ before c behind, subject = before ++ c :: behind →
      (encode before).length < (encode space).length →
      (encode space).length < (encode (before ++ [c])).length →
      afterNamespace? space subject = none) := by
  have hexact : ∀ rest, afterNamespace? space subject = some rest ↔
      ∃ head, subject = head ++ rest ∧ head.length = space.length ∧ EqFold head space := by
    intro rest
    rw [afterNamespace?_eq_some_iff]
    constructor
    · rintro ⟨head, hsubject, hmatch⟩
      have hfold := (lowercase_eq_iff_eqFold hascii hsmall).mp hmatch
      exact ⟨head, hsubject, hfold.length_eq, hfold⟩
    · rintro ⟨head, hsubject, -, hfold⟩
      exact ⟨head, hsubject, (lowercase_eq_iff_eqFold hascii hsmall).mpr hfold⟩
  refine ⟨hexact, ?_, ?_⟩
  · intro head rest hsubject hrest
    obtain ⟨cut, hcut, -, hfold⟩ := (hexact rest).mp hrest
    have hsame : head = cut := List.append_cancel_right (hsubject.symm.trans hcut)
    exact hsame ▸ hfold.isAscii hascii
  · rintro before c behind rfl hbefore hbehind
    exact afterNamespace?_inside hbefore hbehind

/-- The Kelvin sign has three bytes and the lowercase form `k`. It stands for no `k` of the
namespace, and the namespace does not end in it. -/
theorem afterNamespace?_ascii_kelvin :
    afterNamespace? "kb2-".toList "Kb2-Üb".toList = some "Üb".toList ∧
    (∀ rest, afterNamespace? "kb2-".toList "\u212Ab2-Üb".toList ≠ some rest) ∧
    afterNamespace? "kb2-".toList "kb\u212A-".toList = none := by
  have hascii : IsAscii "kb2-".toList := by simp [IsAscii]
  have hsmall : ∀ c ∈ "kb2-".toList, c.isUpper = false := by simp
  refine ⟨?_, ?_, ?_⟩
  · exact ((afterNamespace?_ascii hascii hsmall _).1 _).mpr ⟨"Kb2-".toList, by decide⟩
  · intro rest hrest
    obtain ⟨head, hsubject, hlen, -⟩ := ((afterNamespace?_ascii hascii hsmall _).1 rest).mp hrest
    have hhead := (afterNamespace?_ascii hascii hsmall _).2.1 head rest hsubject hrest
    cases head with
    | nil => exact absurd hlen (by decide)
    | cons c head =>
      have hc : '\u212A' = c := (List.cons.inj hsubject).1
      exact absurd (hhead c List.mem_cons_self) (hc ▸ by decide)
  · exact (afterNamespace?_ascii hascii hsmall _).2.2 "kb".toList '\u212A' "-".toList rfl
      (by decide +kernel) (by decide +kernel)

end SheetLint
