import SheetLint.Proofs.Locality
import SheetLint.Proofs.Text.Utf8
import SheetLint.Walk

/-!
# Bytes that are no text stay where they are

An ASCII character is read where its byte stands and nowhere else, whatever stands around it. So an
ASCII word is read from arbitrary bytes exactly where its bytes stand, the lines of the text that is
read are read from the lines of the bytes, and what is wrong with the bytes of one line is told of
no other line.
-/

namespace SheetLint.Text

/-- Where an ASCII word is read its bytes stand, and where its bytes stand it is read. -/
theorem decodeLossy_eq_append_word_iff {word : List Char} (hne : word ≠ []) (hascii : IsAscii word)
    {bs : Bytes} {front back : List Char} :
    decodeLossy bs = front ++ word ++ back ↔
      ∃ before behind, bs = before ++ encode word ++ behind ∧ decodeLossy before = front ∧
        decodeLossy behind = back := by
  induction word generalizing bs front with
  | nil => exact absurd rfl hne
  | cons c word ih =>
    obtain ⟨hc, hword⟩ := isAscii_cons.mp hascii
    obtain ⟨b, hb, rfl⟩ : ∃ b : UInt8, b.toNat < 0x80 ∧ c = Char.ofNat b.toNat := by
      have hnat : (UInt8.ofNat c.toNat).toNat = c.toNat := by
        rw [UInt8.toNat_ofNat']
        omega
      exact ⟨UInt8.ofNat c.toNat, by rwa [hnat], by rw [hnat, Char.ofNat_toNat]⟩
    have hfirst : front ++ Char.ofNat b.toNat :: word ++ back =
        front ++ Char.ofNat b.toNat :: (word ++ back) := by simp
    have hbytes : ∀ before behind, before ++ encode (Char.ofNat b.toNat :: word) ++ behind =
        before ++ b :: (encode word ++ behind) := by
      intro before behind
      rw [encode_cons, encode_ofNat_toNat hb, List.append_assoc, List.append_assoc]
      rfl
    simp only [hfirst, hbytes, decodeLossy_eq_append_iff hb]
    constructor
    · rintro ⟨before, rest, rfl, rfl, hrest⟩
      cases word with
      | nil => exact ⟨before, rest, rfl, rfl, hrest⟩
      | cons d word =>
        have hcut : decodeLossy rest = [] ++ d :: word ++ back := hrest
        obtain ⟨middle, behind, rfl, hmiddle, hback⟩ := (ih (by simp) hword).mp hcut
        exact ⟨before, behind, by rw [eq_nil_of_decodeLossy hmiddle, List.nil_append], rfl, hback⟩
    · rintro ⟨before, behind, rfl, rfl, rfl⟩
      refine ⟨before, encode word ++ behind, rfl, rfl, ?_⟩
      cases word with
      | nil => rfl
      | cons d word => exact (ih (by simp) hword).mpr ⟨[], behind, rfl, rfl, rfl⟩

/-- The reader can be started again behind each line feed. -/
theorem split_decodeLossy (bs : Bytes) :
    split '\n' (decodeLossy bs) = (split 0x0A bs).map decodeLossy := by
  have hfeed : (0x0A : UInt8).toNat < 0x80 := by decide
  have hmem : ∀ bs, '\n' ∈ decodeLossy bs ↔ 0x0A ∈ bs := fun _ => ofNat_mem_decodeLossy_iff hfeed
  induction hn : bs.length using Nat.strong_induction_on generalizing bs with
  | h n ih =>
    by_cases h : 0x0A ∈ bs
    · obtain ⟨piece, rest, rfl, hpiece⟩ := List.eq_append_cons_of_mem h
      have hlt : rest.length < n := by
        rw [← hn, List.length_append, List.length_cons]
        omega
      rw [decodeLossy_append_ascii hfeed, split_append_cons hpiece, List.map_cons,
        ← ih rest.length hlt rest rfl]
      exact split_append_cons (fun hm => hpiece ((hmem piece).mp hm)) _
    · rw [split_of_not_mem h, split_of_not_mem fun hm => h ((hmem bs).mp hm)]
      rfl

theorem count_decodeLossy (bs : Bytes) : (decodeLossy bs).count '\n' = bs.count 0x0A := by
  have h := congrArg List.length (split_decodeLossy bs)
  rwa [List.length_map, length_split, length_split, Nat.add_right_cancel_iff] at h

section Pieces

variable {α : Type*} [DecidableEq α]

/-- The piece without the one return that may stand at its end. -/
def dropReturn (ret : α) (piece : List α) : List α :=
  if piece.getLast? = some ret then piece.dropLast else piece

/-- The lines in the pieces between line feeds. A return at the end of a piece belongs to the line
feed behind it, and there is none behind the last piece. -/
def endLines (ret : α) : List (List α) → List (List α)
  | [] => []
  | [last] => [last]
  | piece :: next :: pieces => dropReturn ret piece :: endLines ret (next :: pieces)

theorem dropReturn_cons {ret c : α} {piece : List α} (h : piece = [] → c ≠ ret) :
    dropReturn ret (c :: piece) = c :: dropReturn ret piece := by
  cases piece with
  | nil => simp [dropReturn, h rfl]
  | cons d piece =>
    simp only [dropReturn, List.getLast?_cons_cons, List.dropLast_cons_cons,
      apply_ite (List.cons c)]

theorem endLines_cons (ret : α) (piece : List α) (pieces : List (List α)) :
    endLines ret (piece :: pieces) =
      (if pieces = [] then piece else dropReturn ret piece) :: endLines ret pieces := by
  cases pieces <;> simp [endLines]

theorem map_endLines {β : Type*} [DecidableEq β] {ret : α} {ret' : β} {f : List α → List β}
    (h : ∀ piece, f (dropReturn ret piece) = dropReturn ret' (f piece)) (pieces : List (List α)) :
    (endLines ret pieces).map f = endLines ret' (pieces.map f) := by
  induction pieces with
  | nil => rfl
  | cons piece pieces ih =>
    cases pieces with
    | nil => rfl
    | cons next pieces =>
      rw [endLines, List.map_cons, h, ih]
      rfl

end Pieces

theorem decodeLossy_dropReturn (piece : Bytes) :
    decodeLossy (dropReturn 0x0D piece) = dropReturn '\r' (decodeLossy piece) := by
  have hret : (0x0D : UInt8).toNat < 0x80 := by decide
  by_cases h : piece.getLast? = some 0x0D
  · obtain ⟨front, rfl⟩ := List.getLast?_eq_some_iff.mp h
    have hread : decodeLossy (front ++ [0x0D]) = decodeLossy front ++ ['\r'] :=
      decodeLossy_append_ascii hret front []
    simp [dropReturn, hread]
  · have hread : (decodeLossy piece).getLast? ≠ some '\r' := by
      intro hlast
      obtain ⟨front, hfront⟩ := List.getLast?_eq_some_iff.mp hlast
      obtain ⟨before, behind, rfl, -, hbehind⟩ := (decodeLossy_eq_append_iff hret).mp hfront
      exact h (by simp [eq_nil_of_decodeLossy hbehind])
    rw [dropReturn, if_neg h, dropReturn, if_neg hread]

end SheetLint.Text

namespace SheetLint

open Text

theorem breakLines_eq_endLines (cs : List Char) :
    (breakLines cs).1 :: (breakLines cs).2 = endLines '\r' (split '\n' cs) := by
  fun_induction breakLines cs with
  | case1 => rfl
  | case2 cs ih =>
    have hsplit : split '\n' ('\r' :: '\n' :: cs) = ['\r'] :: split '\n' cs :=
      split_append '\n' ['\r'] cs
    rw [hsplit, ih]
    rfl
  | case3 cs ih =>
    have hsplit : split '\n' ('\n' :: cs) = [] :: split '\n' cs := split_append '\n' [] cs
    rw [hsplit, ih]
    rfl
  | case4 c cs hreturn hfeed ih =>
    rw [split, endLines_cons] at ih
    obtain ⟨hfirst, hrest⟩ := List.cons.inj ih
    rw [split_cons_of_ne hfeed, endLines_cons, hfirst, hrest]
    congr 1
    by_cases hlast : (pieces '\n' cs).2 = []
    · rw [if_pos hlast, if_pos hlast]
    · -- A return that is all of its piece would stand right before a line feed.
      have hclear : (pieces '\n' cs).1 = [] → c ≠ '\r' := by
        rintro hnil rfl
        cases cs with
        | nil => exact hlast rfl
        | cons d cs =>
          by_cases hd : d = '\n'
          · exact hreturn cs rfl (by rw [hd])
          · simp [pieces, hd] at hnil
      rw [if_neg hlast, if_neg hlast, dropReturn_cons hclear]

theorem splitLines_shown (bytes : Bytes) :
    splitLines (shown bytes) = ((endLines 0x0D (split 0x0A bytes)).zipIdx 1).map
      fun (line, number) => (number, shown line) := by
  have hlines : (breakLines (shown bytes).toList).1 :: (breakLines (shown bytes).toList).2 =
      (endLines 0x0D (split 0x0A bytes)).map decodeLossy := by
    rw [breakLines_eq_endLines, shown, String.toList_ofList, split_decodeLossy,
      map_endLines decodeLossy_dropReturn]
  simp only [splitLines, hlines, List.zipIdx_map, List.map_map]
  rfl

/-- What is told of a line is what is told of its own bytes. -/
theorem mem_lintContent_shown_iff {bytes piece : Bytes} {i : Nat}
    (h : (split 0x0A bytes)[i]? = some piece) (role : Role) (space message : String) :
    ⟨i + 1, message⟩ ∈ lintContent (shown bytes) role space ↔
      lintContent (shown piece) role space = [⟨1, message⟩] := by
  have hline : (split '\n' (shown bytes).toList)[i]? = some (decodeLossy piece) := by
    rw [shown, String.toList_ofList, split_decodeLossy, List.getElem?_map, h]
    rfl
  have hfeed : '\n' ∉ decodeLossy piece := not_mem_split (List.mem_of_getElem? hline)
  rw [mem_lintContent_iff hline, shown, lintContent_of_line hfeed, Option.toList_eq_singleton_iff]

/-- An ASCII byte stands for itself and parts what is read before it from what is read behind it,
and what is a text already is read as it is. So the lines of a file that is loaded are read from the
lines of its bytes, numbered by the line feeds among the bytes; an ASCII word is read exactly where
its bytes stand; and what is told of a line is told of the bytes of that line alone. -/
theorem shown_byLine :
    (∀ (before behind : Bytes) (b : UInt8), b.toNat < 0x80 →
      decodeLossy (before ++ [b] ++ behind) =
        decodeLossy before ++ [Char.ofNat b.toNat] ++ decodeLossy behind) ∧
    (∀ text : String, shown (bytesOf text) = text) ∧
    ∀ bytes : Bytes,
      (∀ (scope : Scope) (path : String),
        scope.volume.read scope.base (scope.root.join (bytesOf path)) = .ok bytes →
          scope.load path = .ok (shown bytes)) ∧
      splitLines (shown bytes) = ((endLines 0x0D (split 0x0A bytes)).zipIdx 1).map
        (fun (line, number) => (number, shown line)) ∧
      (splitLines (shown bytes)).map Prod.fst = List.range' 1 (bytes.count 0x0A + 1) ∧
      (∀ word front back : List Char, word ≠ [] → IsAscii word →
        (decodeLossy bytes = front ++ word ++ back ↔
          ∃ before behind, bytes = before ++ encode word ++ behind ∧ decodeLossy before = front ∧
            decodeLossy behind = back)) ∧
      ∀ (i : Nat) (piece : Bytes), (split 0x0A bytes)[i]? = some piece →
        ∀ (role : Role) (space message : String),
          (⟨i + 1, message⟩ ∈ lintContent (shown bytes) role space ↔
            lintContent (shown piece) role space = [⟨1, message⟩]) := by
  refine ⟨?_, ?_, fun bytes => ⟨?_, splitLines_shown bytes, ?_, ?_, ?_⟩⟩
  · intro before behind b hb
    simpa using decodeLossy_append_ascii hb before behind
  · intro text
    rw [shown, bytesOf, decodeLossy_encode, String.ofList_toList]
  · intro scope path hread
    rw [Scope.load, hread]
    rfl
  · rw [numbers_splitLines, shown, String.toList_ofList, count_decodeLossy]
  · intro word front back hne hascii
    exact decodeLossy_eq_append_word_iff hne hascii
  · intro i piece hpiece role space message
    exact mem_lintContent_shown_iff hpiece role space message

/-- The last letter of the note is cut off before the line end, and a letter of the selector is cut
off before the blank. -/
def latinContent : Bytes :=
  bytesOf "// caf" ++ [0xC3] ++ bytesOf "\r\n.b" ++ [0xE2, 0x82] ++ bytesOf " { }"

/-- A directory with one file of bytes that are no text. -/
def latinFile : Volume where
  entries := [([bytesOf "d"], .directory), ([bytesOf "style.css", bytesOf "d"], .file latinContent)]
  distinct := by decide +kernel
  placed := Volume.placed_of_forall (by decide +kernel)

theorem shown_byLine_latinFile :
    let scope : Scope := ⟨latinFile, [], bytesOf "d"⟩
    scope.load "style.css" = .ok "// caf\uFFFD\r\n.b\uFFFD { }" ∧
    splitLines (shown latinContent) = [(1, "// caf\uFFFD"), (2, ".b\uFFFD { }")] ∧
    ⟨2, "class selectors not permitted here"⟩ ∈ lintContent (shown latinContent) .style "" ∧
    decodeLossy (bytesOf ".b" ++ [0xE2, 0x82] ++ [0x20] ++ bytesOf "{ }") = ".b\uFFFD { }".toList ∧
    ∃ before behind, latinContent = before ++ encode ['.', 'b'] ++ behind ∧
      decodeLossy before = "// caf\uFFFD\r\n".toList ∧
      decodeLossy behind = "\uFFFD { }".toList := by
  intro scope
  obtain ⟨hcut, -, hbytes⟩ := shown_byLine
  obtain ⟨hload, hlines, -, hword, hline⟩ := hbytes latinContent
  have hshown : shown latinContent = "// caf\uFFFD\r\n.b\uFFFD { }" := by decide +kernel
  have hpiece : (split 0x0A latinContent)[1]? =
      some (bytesOf ".b" ++ [0xE2, 0x82] ++ bytesOf " { }") := by
    decide +kernel
  refine ⟨?_, ?_, ?_, ?_, ?_⟩
  · rw [hload scope "style.css" (by decide +kernel), hshown]
  · rw [hlines]
    decide +kernel
  · exact (hline 1 _ hpiece .style "" _).mpr (by decide +kernel)
  · rw [hcut _ _ 0x20 (by decide)]
    decide +kernel
  · exact (hword ['.', 'b'] _ _ (by simp) (by simp [IsAscii])).mp (by decide +kernel)

end SheetLint
