import Mathlib.Data.List.Basic
import SheetLint.Json

/-!
# Reading JSON documents

A reader that knows nothing of how documents are printed. A machine takes one character at a time
and cuts the text into tokens, wherever blanks stand and however the characters of a text are
escaped. The tokens are then put together, with the arrays and objects that are still open on a
stack. Of the values of JSON only those are read that documents here are made of: texts, numbers
without sign, fraction and exponent, arrays and objects. Main result: what is printed is read back.
-/

namespace SheetLint

/-- What a document is made of, apart from blanks. -/
inductive JsonToken where
  | number (value : Nat)
  | text (value : List Char)
  | mark (c : Char)
deriving DecidableEq, Repr

namespace JsonToken

/-- Where the machine is between two characters. What it has read of a text stands last character
first. The four digits of an escaped character may be half of one, and then `high` is the first
half. -/
inductive Place where
  | between
  | number (value : Nat)
  | text (front : List Char)
  | escape (front : List Char)
  | unit (front : List Char) (high : Option Nat) (digits value : Nat)
  | half (front : List Char) (high : Nat)
  | halfEscape (front : List Char) (high : Nat)
deriving DecidableEq, Repr

/-- The tokens read so far, last one first, and the place. -/
structure Machine where
  tokens : List JsonToken
  place : Place
deriving DecidableEq, Repr

def isSpace (c : Char) : Bool := c = ' ' || c = '\t' || c = '\n' || c = '\r'

def isMark (c : Char) : Bool :=
  c = '[' || c = ']' || c = '\x7b' || c = '\x7d' || c = ',' || c = ':'

def digitValue (c : Char) : Nat := c.toNat - '0'.toNat

def hexValue? (c : Char) : Option Nat :=
  if c.isDigit then some (digitValue c)
  else if 'a' ≤ c ∧ c ≤ 'f' then some (c.toNat - 'a'.toNat + 10)
  else if 'A' ≤ c ∧ c ≤ 'F' then some (c.toNat - 'A'.toNat + 10)
  else none

/-- The character that a backslash and a single character stand for. -/
def escaped? : Char → Option Char
  | '"' => some '"'
  | '\\' => some '\\'
  | '/' => some '/'
  | 'b' => some '\x08'
  | 'f' => some '\x0c'
  | 'n' => some '\n'
  | 'r' => some '\r'
  | 't' => some '\t'
  | _ => none

/-- The end of four digits: a character, the first half of one, or the second half. Halves stand
only in pairs. -/
def endUnit? (front : List Char) (value : Nat) : Option Nat → Option Place
  | none =>
    if value < 0xD800 ∨ 0xDFFF < value then some (.text (Char.ofNat value :: front))
    else if value < 0xDC00 then some (.half front value)
    else none
  | some high =>
    if 0xDC00 ≤ value ∧ value ≤ 0xDFFF then
      some (.text (Char.ofNat (0x10000 + (high - 0xD800) * 0x400 + (value - 0xDC00)) :: front))
    else none

/-- A character that stands between two tokens or begins one. -/
def begin? (tokens : List JsonToken) (c : Char) : Option Machine :=
  if isSpace c then some ⟨tokens, .between⟩
  else if isMark c then some ⟨.mark c :: tokens, .between⟩
  else if c = '"' then some ⟨tokens, .text []⟩
  else if c.isDigit then some ⟨tokens, .number (digitValue c)⟩
  else none

/-- A number has no digit behind a leading zero. -/
def step? (m : Machine) (c : Char) : Option Machine :=
  match m.place with
  | .between => begin? m.tokens c
  | .number value =>
    if c.isDigit then
      if value = 0 then none else some { m with place := .number (value * 10 + digitValue c) }
    else begin? (.number value :: m.tokens) c
  | .text front =>
    if c = '"' then some ⟨.text front.reverse :: m.tokens, .between⟩
    else if c = '\\' then some { m with place := .escape front }
    else if c.toNat < 0x20 then none
    else some { m with place := .text (c :: front) }
  | .escape front =>
    if c = 'u' then some { m with place := .unit front none 0 0 }
    else (escaped? c).map fun d => { m with place := .text (d :: front) }
  | .unit front high digits value =>
    match hexValue? c with
    | none => none
    | some digit =>
      if digits < 3 then
        some { m with place := .unit front high (digits + 1) (value * 16 + digit) }
      else (endUnit? front (value * 16 + digit) high).map fun place => { m with place }
  | .half front high => if c = '\\' then some { m with place := .halfEscape front high } else none
  | .halfEscape front high =>
    if c = 'u' then some { m with place := .unit front (some high) 0 0 } else none

/-- The machine behind the number it is in, if it is in one. -/
def Machine.settle (m : Machine) : Machine :=
  match m.place with
  | .number value => ⟨.number value :: m.tokens, .between⟩
  | _ => m

def ofText? (cs : List Char) : Option (List JsonToken) :=
  (cs.foldlM step? ⟨[], .between⟩).bind fun m =>
    match m.settle.place with
    | .between => some m.settle.tokens.reverse
    | _ => none

end JsonToken

/-- An array or an object that is still open: the values before the one that is being read, last
one first, and in an object the key of that one. -/
inductive JsonFrame where
  | array (items : List JsonValue)
  | object (fields : List (List Char × JsonValue)) (key : List Char)

namespace JsonValue

mutual

/-- The document whose next tokens are those of a value. -/
def readValue? (frames : List JsonFrame) : List JsonToken → Option JsonValue
  | .number value :: tokens => readNext? frames (.number value) tokens
  | .text value :: tokens => readNext? frames (.text value) tokens
  | .mark '[' :: .mark ']' :: tokens => readNext? frames (.array []) tokens
  | .mark '[' :: tokens => readValue? (.array [] :: frames) tokens
  | .mark '\x7b' :: .mark '\x7d' :: tokens => readNext? frames (.object []) tokens
  | .mark '\x7b' :: .text key :: .mark ':' :: tokens => readValue? (.object [] key :: frames) tokens
  | _ => none

/-- The document in which the value has just been read. -/
def readNext? : List JsonFrame → JsonValue → List JsonToken → Option JsonValue
  | [], value, [] => some value
  | .array items :: frames, value, .mark ',' :: tokens =>
    readValue? (.array (value :: items) :: frames) tokens
  | .array items :: frames, value, .mark ']' :: tokens =>
    readNext? frames (.array (value :: items).reverse) tokens
  | .object fields key :: frames, value, .mark ',' :: .text next :: .mark ':' :: tokens =>
    readValue? (.object ((key, value) :: fields) next :: frames) tokens
  | .object fields key :: frames, value, .mark '\x7d' :: tokens =>
    readNext? frames (.object ((key, value) :: fields).reverse) tokens
  | _, _, _ => none

end

/-- The document that a text spells. -/
def read? (text : String) : Option JsonValue :=
  (JsonToken.ofText? text.toList).bind (readValue? [])

end JsonValue

namespace JsonToken

/-- The machine reads the text as the tokens, wherever it comes between two tokens. -/
def Lexes (cs : List Char) (tokens : List JsonToken) : Prop :=
  ∀ before, ∃ m, cs.foldlM step? ⟨before, .between⟩ = some m ∧
    m.settle = ⟨tokens.reverse ++ before, .between⟩

/-- A number ends where no digit follows. -/
theorem step?_settle (m : Machine) {c : Char} (hc : c.isDigit = false) :
    step? m.settle c = step? m c := by
  obtain ⟨tokens, place⟩ := m
  cases place with
  | number value => simp [Machine.settle, step?, hc]
  | between => rfl
  | text front => rfl
  | escape front => rfl
  | unit front high digits value => rfl
  | half front high => rfl
  | halfEscape front high => rfl

theorem Lexes.append {cs ds : List Char} {c : Char} {tokens others : List JsonToken}
    (h : Lexes cs tokens) (hc : c.isDigit = false) (h' : Lexes (c :: ds) others) :
    Lexes (cs ++ c :: ds) (tokens ++ others) := by
  intro before
  obtain ⟨m, hm, hsettle⟩ := h before
  obtain ⟨m', hm', hsettle'⟩ := h' (tokens.reverse ++ before)
  refine ⟨m', ?_, ?_⟩
  · rw [List.foldlM_append, hm, Option.bind_eq_bind, Option.bind_some, List.foldlM_cons,
      ← step?_settle m hc, hsettle, ← List.foldlM_cons, hm']
  · rw [hsettle', List.reverse_append, List.append_assoc]

theorem lexes_nil : Lexes [] [] := fun before => ⟨⟨before, .between⟩, rfl, rfl⟩

theorem Lexes.space {cs : List Char} {tokens : List JsonToken} (h : Lexes cs tokens) {c : Char}
    (hc : isSpace c = true) : Lexes (c :: cs) tokens := by
  intro before
  have hstep : step? ⟨before, .between⟩ c = some ⟨before, .between⟩ := if_pos hc
  obtain ⟨m, hm, hsettle⟩ := h before
  exact ⟨m, by rw [List.foldlM_cons, hstep, Option.bind_eq_bind, Option.bind_some, hm], hsettle⟩

theorem isSpace_of_isMark {c : Char} (h : isMark c = true) : isSpace c = false := by
  simp only [isMark, Bool.or_eq_true, decide_eq_true_eq] at h
  rcases h with ((((rfl | rfl) | rfl) | rfl) | rfl) | rfl <;> rfl

theorem Lexes.mark {cs : List Char} {tokens : List JsonToken} (h : Lexes cs tokens) {c : Char}
    (hc : isMark c = true) : Lexes (c :: cs) (.mark c :: tokens) := by
  intro before
  have hspace := isSpace_of_isMark hc
  have hstep : step? ⟨before, .between⟩ c = some ⟨.mark c :: before, .between⟩ := by
    simp [step?, begin?, hspace, hc]
  obtain ⟨m, hm, hsettle⟩ := h (.mark c :: before)
  refine ⟨m, by rw [List.foldlM_cons, hstep, Option.bind_eq_bind, Option.bind_some, hm], ?_⟩
  rw [hsettle, List.reverse_cons, List.append_assoc, List.singleton_append]

theorem hexValue?_digitChar {d : Nat} (h : d < 16) : hexValue? (Nat.digitChar d) = some d := by
  revert d
  decide

theorem isDigit_digitChar {d : Nat} (h : d < 10) :
    (Nat.digitChar d).isDigit = true ∧ digitValue (Nat.digitChar d) = d := by
  revert d
  decide

theorem begin?_digitChar (tokens : List JsonToken) {d : Nat} (h : d < 10) :
    begin? tokens (Nat.digitChar d) = some ⟨tokens, .number d⟩ := by
  have hother : isSpace (Nat.digitChar d) = false ∧ isMark (Nat.digitChar d) = false ∧
      Nat.digitChar d ≠ '"' := by
    revert d
    decide
  obtain ⟨hspace, hmark, hquote⟩ := hother
  obtain ⟨hdigit, hvalue⟩ := isDigit_digitChar h
  simp [begin?, hspace, hmark, hquote, hdigit, hvalue]

/-- Inside a text, what stands for a character is read as the character. -/
theorem foldlM_escapeChar (tokens : List JsonToken) (front : List Char) (c : Char) :
    (JsonValue.escapeChar c).foldlM step? ⟨tokens, .text front⟩ =
      some ⟨tokens, .text (c :: front)⟩ := by
  unfold JsonValue.escapeChar
  by_cases hquote : c = '"'
  · subst hquote
    rfl
  rw [if_neg hquote]
  by_cases hslash : c = '\\'
  · subst hslash
    rfl
  rw [if_neg hslash]
  by_cases hfeed : c = '\n'
  · subst hfeed
    rfl
  rw [if_neg hfeed]
  by_cases hreturn : c = '\r'
  · subst hreturn
    rfl
  rw [if_neg hreturn]
  by_cases htab : c = '\t'
  · subst htab
    rfl
  rw [if_neg htab]
  by_cases hback : c.toNat = 0x08
  · rw [if_pos hback, ← Char.ofNat_toNat c, hback]
    rfl
  rw [if_neg hback]
  by_cases hform : c.toNat = 0x0C
  · rw [if_pos hform, ← Char.ofNat_toNat c, hform]
    rfl
  rw [if_neg hform]
  by_cases hcontrol : c.toNat < 0x20
  · have hhigh := hexValue?_digitChar (d := c.toNat / 16) (by omega)
    have hlow := hexValue?_digitChar (d := c.toNat % 16) (by omega)
    have hzero : hexValue? '0' = some 0 := rfl
    have hvalue : c.toNat / 16 * 16 + c.toNat % 16 = c.toNat := by omega
    have hend : endUnit? front c.toNat none = some (.text (c :: front)) := by
      rw [endUnit?, if_pos (by omega), Char.ofNat_toNat]
    rw [if_pos hcontrol]
    simp [step?, JsonValue.hexPair, hzero, hhigh, hlow, hvalue, hend]
  · rw [if_neg hcontrol]
    simp [step?, hquote, hslash, hcontrol]

theorem lexes_quote (cs : List Char) : Lexes (JsonValue.quote cs) [.text cs] := by
  have htext : ∀ tokens front, (cs.flatMap JsonValue.escapeChar).foldlM step?
      ⟨tokens, .text front⟩ = some ⟨tokens, .text (cs.reverse ++ front)⟩ := by
    intro tokens front
    induction cs generalizing front with
    | nil => rfl
    | cons c cs ih =>
      rw [List.flatMap_cons, List.foldlM_append, foldlM_escapeChar, Option.bind_eq_bind,
        Option.bind_some, ih, List.reverse_cons, List.append_assoc, List.singleton_append]
  intro before
  refine ⟨⟨.text cs :: before, .between⟩, ?_, rfl⟩
  have hopen : step? ⟨before, .between⟩ '"' = some ⟨before, .text []⟩ := rfl
  rw [JsonValue.quote, List.cons_append, List.foldlM_cons, hopen, Option.bind_eq_bind,
    Option.bind_some, List.foldlM_append, htext, Option.bind_eq_bind, Option.bind_some]
  simp [step?]

/-- The digits of a number, which are more than one only if the first is not zero. -/
theorem foldlM_toDigits (tokens : List JsonToken) (n : Nat) :
    (Nat.toDigits 10 n).foldlM step? ⟨tokens, .between⟩ = some ⟨tokens, .number n⟩ := by
  induction n using Nat.strongRecOn with
  | ind n ih =>
    by_cases hn : n < 10
    · have hstep : step? ⟨tokens, .between⟩ n.digitChar = some ⟨tokens, .number n⟩ :=
        begin?_digitChar tokens hn
      rw [Nat.toDigits_of_lt_base hn, List.foldlM_cons, hstep]
      rfl
    · have hlt : n % 10 < 10 := Nat.mod_lt n (by decide)
      obtain ⟨hdigit, hvalue⟩ := isDigit_digitChar hlt
      have hpos : n / 10 ≠ 0 := by omega
      rw [Nat.toDigits_of_base_le (by decide) (by omega), List.foldlM_append,
        ih (n / 10) (by omega), Option.bind_eq_bind, Option.bind_some]
      simp only [List.foldlM_cons, List.foldlM_nil, step?, hdigit, if_true, hpos, if_false, hvalue,
        Nat.div_add_mod']
      rfl

theorem lexes_toDigits (n : Nat) : Lexes (Nat.toDigits 10 n) [.number n] :=
  fun before => ⟨⟨before, .number n⟩, foldlM_toDigits before n, rfl⟩

theorem Lexes.indented {cs : List Char} {tokens : List JsonToken} (h : Lexes cs tokens)
    (depth : Nat) : Lexes (JsonValue.indentation depth ++ cs) tokens := by
  rw [JsonValue.indentation]
  induction 2 * depth with
  | zero => exact h
  | succ n ih => exact ih.space rfl

/-- Rows that stand in lines of their own, with a comma at the end of each but the last. -/
theorem lexes_lines {depth : Nat} {rows : List (List Char)} {tokens : List (List JsonToken)}
    (h : List.Forall₂ Lexes rows tokens) (hne : rows ≠ []) :
    Lexes (List.intercalate [',', '\n'] (rows.map (JsonValue.indentation depth ++ ·)))
      (List.intercalate [.mark ','] tokens) := by
  induction h with
  | nil => exact absurd rfl hne
  | @cons row tokens rows others hrow hrows ih =>
    cases hrows with
    | nil => simpa using hrow.indented depth
    | @cons next tokens' rows others hnext hrows =>
      have hrest := ((ih (by simp)).space (c := '\n') rfl).mark (c := ',') rfl
      have happend := (hrow.indented depth).append rfl hrest
      rw [List.map_cons, List.map_cons, List.intercalate_cons_cons, List.intercalate_cons_cons,
        ← List.map_cons]
      simpa using happend

theorem lexes_block {depth : Nat} {opening closing : Char} (hopen : isMark opening = true)
    (hclose : isMark closing = true) {rows : List (List Char)} {tokens : List (List JsonToken)}
    (h : List.Forall₂ Lexes rows tokens) :
    Lexes (JsonValue.block depth opening closing rows)
      (.mark opening :: List.intercalate [.mark ','] tokens ++ [.mark closing]) := by
  have hlast : Lexes [closing] [.mark closing] := lexes_nil.mark hclose
  cases h with
  | nil => exact hlast.mark hopen
  | @cons row tokens rows others hrow hrows =>
    have hlines := @lexes_lines (depth + 1) _ _ (.cons hrow hrows) (by simp)
    have hbody := hlines.append (c := '\n') rfl ((hlast.indented depth).space rfl)
    simpa [JsonValue.block] using (hbody.space (c := '\n') rfl).mark hopen

end JsonToken

namespace JsonValue

mutual

/-- The tokens of a document. -/
def tokens : JsonValue → List JsonToken
  | .number value => [.number value]
  | .text value => [.text value]
  | .array items => .mark '[' :: List.intercalate [.mark ','] (itemTokens items) ++ [.mark ']']
  | .object fields =>
    .mark '\x7b' :: List.intercalate [.mark ','] (fieldTokens fields) ++ [.mark '\x7d']

def itemTokens : List JsonValue → List (List JsonToken)
  | [] => []
  | item :: items => tokens item :: itemTokens items

def fieldTokens : List (List Char × JsonValue) → List (List JsonToken)
  | [] => []
  | (key, value) :: fields => (.text key :: .mark ':' :: tokens value) :: fieldTokens fields

end

mutual

theorem lexes_print (depth : Nat) : ∀ value : JsonValue,
    JsonToken.Lexes (print depth value) value.tokens
  | .number value => JsonToken.lexes_toDigits value
  | .text value => JsonToken.lexes_quote value
  | .array items => JsonToken.lexes_block rfl rfl (lexes_items (depth + 1) items)
  | .object fields => JsonToken.lexes_block rfl rfl (lexes_fields (depth + 1) fields)

theorem lexes_items (depth : Nat) : ∀ items : List JsonValue,
    List.Forall₂ JsonToken.Lexes (printItems depth items) (itemTokens items)
  | [] => .nil
  | item :: items => .cons (lexes_print depth item) (lexes_items depth items)

theorem lexes_fields (depth : Nat) : ∀ fields : List (List Char × JsonValue),
    List.Forall₂ JsonToken.Lexes (printFields depth fields) (fieldTokens fields)
  | [] => .nil
  | (key, value) :: fields =>
    .cons ((JsonToken.lexes_quote key).append rfl
      (((lexes_print depth value).space rfl).mark rfl)) (lexes_fields depth fields)

end

theorem tokens_ne_closing (value : JsonValue) :
    ∃ token rest, value.tokens = token :: rest ∧ token ≠ .mark ']' := by
  cases value <;> exact ⟨_, _, rfl, by simp⟩

/-- An array that does not close at once has a value in it. -/
theorem readValue?_array (frames : List JsonFrame) (value : JsonValue) (rest : List JsonToken) :
    readValue? frames (.mark '[' :: (value.tokens ++ rest)) =
      readValue? (.array [] :: frames) (value.tokens ++ rest) := by
  obtain ⟨token, others, htokens, hne⟩ := value.tokens_ne_closing
  rw [htokens, List.cons_append, readValue?]
  intro tokens heq
  exact hne (List.cons.inj heq).1

mutual

/-- Reading a value goes on behind it, whatever is open around it. -/
theorem readValue?_tokens (frames : List JsonFrame) (rest : List JsonToken) :
    ∀ value : JsonValue,
      readValue? frames (value.tokens ++ rest) = readNext? frames value rest
  | .number value => by rw [tokens, List.singleton_append, readValue?]
  | .text value => by rw [tokens, List.singleton_append, readValue?]
  | .array [] => by
    rw [tokens, itemTokens, List.intercalate_nil, List.singleton_append, List.cons_append,
      List.singleton_append, readValue?]
  | .array (item :: items) => by
    have hitems := readValue?_items frames [] rest (item :: items) (by simp)
    obtain ⟨others, hothers⟩ : ∃ others,
        List.intercalate [.mark ','] (itemTokens (item :: items)) = item.tokens ++ others := by
      cases items with
      | nil => exact ⟨[], by simp [itemTokens]⟩
      | cons next items => exact ⟨_, by rw [itemTokens, itemTokens, List.intercalate_cons_cons,
          List.append_assoc]⟩
    rw [hothers, List.append_assoc] at hitems
    rw [tokens, hothers, List.cons_append, List.cons_append, List.append_assoc, List.append_assoc,
      readValue?_array, List.singleton_append, hitems]
    rfl
  | .object [] => by
    rw [tokens, fieldTokens, List.intercalate_nil, List.singleton_append, List.cons_append,
      List.singleton_append, readValue?]
  | .object (field :: fields) => by
    obtain ⟨key, others, htokens, hread⟩ := readValue?_fields (field :: fields) (by simp)
    rw [tokens, htokens, List.append_assoc, List.cons_append, List.cons_append, List.cons_append,
      readValue?, List.singleton_append, hread]
    rfl

/-- The items of an array, of which some have been read before. -/
theorem readValue?_items (frames : List JsonFrame) (front : List JsonValue)
    (rest : List JsonToken) : ∀ items : List JsonValue, items ≠ [] →
      readValue? (.array front :: frames)
          (List.intercalate [.mark ','] (itemTokens items) ++ .mark ']' :: rest) =
        readNext? frames (.array (front.reverse ++ items)) rest
  | [], hne => absurd rfl hne
  | [item], _ => by
    rw [itemTokens, itemTokens, List.intercalate_singleton, readValue?_tokens, readNext?,
      List.reverse_cons]
  | item :: next :: items, _ => by
    have hitems := readValue?_items frames (item :: front) rest (next :: items) (by simp)
    rw [List.reverse_cons, List.append_assoc, List.singleton_append] at hitems
    rw [itemTokens, itemTokens, List.intercalate_cons_cons, ← itemTokens, List.append_assoc,
      List.append_assoc, readValue?_tokens, List.singleton_append, readNext?, hitems]

/-- The fields of an object behind the key of the first one. -/
theorem readValue?_fields : ∀ fields : List (List Char × JsonValue), fields ≠ [] →
    ∃ key others,
      List.intercalate [.mark ','] (fieldTokens fields) = .text key :: .mark ':' :: others ∧
      ∀ frames front rest,
        readValue? (.object front key :: frames) (others ++ .mark '\x7d' :: rest) =
          readNext? frames (.object (front.reverse ++ fields)) rest
  | [], hne => absurd rfl hne
  | [(key, value)], _ => by
    refine ⟨key, value.tokens, by simp [fieldTokens], fun frames front rest => ?_⟩
    rw [readValue?_tokens, readNext?, List.reverse_cons]
  | (key, value) :: (next, inside) :: fields, _ => by
    obtain ⟨key', others, htokens, hread⟩ := readValue?_fields ((next, inside) :: fields) (by simp)
    refine ⟨key, value.tokens ++ .mark ',' :: .text key' :: .mark ':' :: others, ?_, ?_⟩
    · rw [fieldTokens, fieldTokens, List.intercalate_cons_cons, ← fieldTokens, htokens]
      simp
    · intro frames front rest
      rw [List.append_assoc, readValue?_tokens, List.cons_append, List.cons_append,
        List.cons_append, readNext?, hread, List.reverse_cons, List.append_assoc,
        List.singleton_append]

end

theorem read?_of_lexes {cs : List Char} {value : JsonValue}
    (h : JsonToken.Lexes cs value.tokens) : read? (String.ofList cs) = some value := by
  obtain ⟨m, hm, hsettle⟩ := h []
  have htokens : JsonToken.ofText? cs = some value.tokens := by
    rw [JsonToken.ofText?, hm, Option.bind_some, hsettle]
    simp
  have hread := readValue?_tokens [] [] value
  rw [List.append_nil, readNext?] at hread
  rw [read?, String.toList_ofList, htokens, Option.bind_some, hread]

/-- What is printed is read back. -/
theorem read?_pretty (value : JsonValue) : read? value.pretty = some value :=
  read?_of_lexes (lexes_print 0 value)

/-- Blanks may stand wherever a token ends, and a character may be spelled in several ways. -/
example : read? "[ \x7b\"\\u0061\\ud83d\\ude00\" :\n10\x7d ,\t[ ]]" =
    some (.array [.object [(['a', '😀'], .number 10)], .array []]) := by
  cbv

end JsonValue

end SheetLint
