import RecruitingOs.Lib.Json

/-!
# Parsing JSON

`parse` reads a text as `JSON.parse` does: one value, with blanks around the tokens.  It is
for texts that `stringify` has written: numbers and the fields of objects are kept as they
stand, and an escaped surrogate is not read.

`parse_stringify` is the round trip: every value whose numbers are number tokens is what
its text parses to.  The fuel of the parser is the length of the text, which is enough
(`size_le_length`).
-/

namespace Json

/-! ### Tokens -/

/-- The blanks between tokens. -/
def isBlank (c : Char) : Bool := c = ' ' ∨ c = '\n' ∨ c = '\r' ∨ c = '\t'

def skipBlanks (text : List Char) : List Char := text.dropWhile isBlank

/-- The value of a hexadecimal digit. -/
def hexValue (c : Char) : Option ℕ :=
  if c.isDigit then some (c.toNat - '0'.toNat)
  else if 'a' ≤ c ∧ c ≤ 'f' then some (c.toNat - 'a'.toNat + 10)
  else if 'A' ≤ c ∧ c ≤ 'F' then some (c.toNat - 'A'.toNat + 10)
  else none

/-- The character behind a backslash, other than `u`. -/
def unescape (c : Char) : Option Char :=
  if c = '"' ∨ c = '\\' ∨ c = '/' then some c
  else if c = 'n' then some '\n'
  else if c = 'r' then some '\r'
  else if c = 't' then some '\t'
  else if c = 'b' then some (Char.ofNat 8)
  else if c = 'f' then some (Char.ofNat 12)
  else none

/-- The character of four hexadecimal digits. -/
def unicode (a b c d : Char) : Option Char :=
  (hexValue a).bind fun a => (hexValue b).bind fun b => (hexValue c).bind fun c =>
    (hexValue d).bind fun d =>
      let code := ((a * 16 + b) * 16 + c) * 16 + d
      if code.isValidChar then some (Char.ofNat code) else none

/-- A string behind its opening quote: its characters, and what follows the closing one. -/
def parseString : List Char → Option (List Char × List Char)
  | [] => none
  | '"' :: rest => some ([], rest)
  | '\\' :: 'u' :: a :: b :: c :: d :: rest =>
      (unicode a b c d).bind fun c =>
        (parseString rest).map fun (text, rest) => (c :: text, rest)
  | '\\' :: c :: rest =>
      (unescape c).bind fun c =>
        (parseString rest).map fun (text, rest) => (c :: text, rest)
  | c :: rest =>
      if c = '\\' ∨ c.toNat < 32 then none
      else (parseString rest).map fun (text, rest) => (c :: text, rest)

/-- The characters of a number. -/
def isNumberChar (c : Char) : Bool :=
  c.isDigit ∨ c = '-' ∨ c = '+' ∨ c = '.' ∨ c = 'e' ∨ c = 'E'

/-- Digits, at least one, and what follows them. -/
def digits (text : List Char) : Option (List Char) :=
  match text with
  | c :: rest => if c.isDigit then some (rest.dropWhile Char.isDigit) else none
  | [] => none

/-- `-? (0 | [1-9][0-9]*) (. [0-9]+)? ([eE] [+-]? [0-9]+)?`. -/
def isNumber (token : List Char) : Bool :=
  let unsigned := match token with
    | '-' :: rest => rest
    | _ => token
  let integer := match unsigned with
    | '0' :: rest => some rest
    | _ => digits unsigned
  let fraction := integer.bind fun rest =>
    match rest with
    | '.' :: rest => digits rest
    | _ => some rest
  let exponent := fraction.bind fun rest =>
    match rest with
    | e :: rest =>
        if e = 'e' ∨ e = 'E' then
          match rest with
          | '+' :: rest | '-' :: rest => digits rest
          | _ => digits rest
        else none
    | [] => some []
  exponent = some []

/-! ### Values -/

mutual

/-- One value, and what follows it. -/
def parseValue : ℕ → List Char → Option (Json × List Char)
  | 0, _ => none
  | fuel + 1, text =>
      match skipBlanks text with
      | [] => none
      | c :: rest =>
          if c = '"' then
            (parseString rest).map fun (text, rest) => (.str (String.ofList text), rest)
          else if c = '[' then
            match skipBlanks rest with
            | ']' :: rest => some (.arr [], rest)
            | rest => (parseItems fuel rest).map fun (items, rest) => (.arr items, rest)
          else if c = '\x7b' then
            match skipBlanks rest with
            | '\x7d' :: rest => some (.obj [], rest)
            | rest => (parseFields fuel rest).map fun (fields, rest) => (.obj fields, rest)
          else if isNumberChar c ∧ isNumber ((c :: rest).takeWhile isNumberChar) then
            some (.num (String.ofList ((c :: rest).takeWhile isNumberChar)),
              (c :: rest).dropWhile isNumberChar)
          else
            match c :: rest with
            | 'n' :: 'u' :: 'l' :: 'l' :: rest => some (.null, rest)
            | 't' :: 'r' :: 'u' :: 'e' :: rest => some (.bool true, rest)
            | 'f' :: 'a' :: 'l' :: 's' :: 'e' :: rest => some (.bool false, rest)
            | _ => none

/-- The items of an array, at least one, behind its bracket. -/
def parseItems : ℕ → List Char → Option (List Json × List Char)
  | 0, _ => none
  | fuel + 1, text =>
      (parseValue fuel text).bind fun (item, rest) =>
        match skipBlanks rest with
        | ',' :: rest => (parseItems fuel rest).map fun (items, rest) => (item :: items, rest)
        | ']' :: rest => some ([item], rest)
        | _ => none

/-- The fields of an object, at least one, behind its brace. -/
def parseFields : ℕ → List Char → Option (List (String × Json) × List Char)
  | 0, _ => none
  | fuel + 1, text =>
      match skipBlanks text with
      | '"' :: rest =>
          (parseString rest).bind fun (key, rest) =>
            match skipBlanks rest with
            | ':' :: rest =>
                (parseValue fuel rest).bind fun (value, rest) =>
                  match skipBlanks rest with
                  | ',' :: rest =>
                      (parseFields fuel rest).map fun (fields, rest) =>
                        ((String.ofList key, value) :: fields, rest)
                  | '\x7d' :: rest => some ([(String.ofList key, value)], rest)
                  | _ => none
            | _ => none
      | _ => none

end

/-- `JSON.parse(text)`, `none` where it throws. -/
def parse (text : String) : Option Json :=
  (parseValue (text.length + 1) text.toList).bind fun (value, rest) =>
    if skipBlanks rest = [] then some value else none

/-! ### The round trip -/

mutual

/-- The numbers in a value are number tokens. -/
def printable : Json → Bool
  | .null | .bool _ | .str _ => true
  | .num text => isNumber text.toList ∧ text.toList.all isNumberChar
  | .arr items => printableItems items
  | .obj fields => printableFields fields

def printableItems : List Json → Bool
  | [] => true
  | item :: rest => item.printable ∧ printableItems rest

def printableFields : List (String × Json) → Bool
  | [] => true
  | (_, value) :: rest => value.printable ∧ printableFields rest

end

mutual

/-- The fuel that a value takes. -/
def size : Json → ℕ
  | .null | .bool _ | .num _ | .str _ => 1
  | .arr items => 1 + itemsSize items
  | .obj fields => 1 + fieldsSize fields

def itemsSize : List Json → ℕ
  | [] => 0
  | item :: rest => 1 + item.size + itemsSize rest

def fieldsSize : List (String × Json) → ℕ
  | [] => 0
  | (_, value) :: rest => 1 + value.size + fieldsSize rest

end

theorem skipBlanks_cons {c : Char} (hc : isBlank c = false) (rest : List Char) :
    skipBlanks (c :: rest) = c :: rest := by
  simp [skipBlanks, hc]

/-! #### Strings -/

theorem hexValue_digitChar : ∀ n < 16, hexValue (Nat.digitChar n) = some n := by
  decide

/-- The four digits that are written for a control character. -/
theorem unicode_control {c : Char} (hc : c.toNat < 32) :
    unicode '0' '0' (Nat.digitChar (c.toNat / 16)) (Nat.digitChar (c.toNat % 16)) = some c := by
  have hzero : hexValue '0' = some 0 := by decide
  have hhigh := hexValue_digitChar (c.toNat / 16) (by omega)
  have hlow := hexValue_digitChar (c.toNat % 16) (by omega)
  have hcode : ((0 * 16 + 0) * 16 + c.toNat / 16) * 16 + c.toNat % 16 = c.toNat := by omega
  have hvalid : c.toNat.isValidChar := c.valid
  simp only [unicode, hzero, hhigh, hlow, Option.bind_some, hcode, if_pos hvalid, Char.ofNat_toNat]

theorem parseString_end (rest : List Char) : parseString ('"' :: rest) = some ([], rest) := by
  simp [parseString]

theorem parseString_unicode (a b c d : Char) (rest : List Char) :
    parseString ('\\' :: 'u' :: a :: b :: c :: d :: rest) =
      (unicode a b c d).bind fun c =>
        (parseString rest).map fun (text, rest) => (c :: text, rest) := by
  simp [parseString]

/-- A character comes back from its escape. -/
theorem parseString_escapeChar (c : Char) (rest : List Char) :
    parseString ((escapeChar c).toList ++ rest) =
      (parseString rest).map fun (text, rest) => (c :: text, rest) := by
  unfold escapeChar
  split
  · rename_i hc
    subst hc
    rfl
  split
  · rename_i hc
    subst hc
    rfl
  split
  · rename_i hc
    subst hc
    rfl
  split
  · rename_i hc
    subst hc
    rfl
  split
  · rename_i hc
    subst hc
    rfl
  split
  · rename_i hc
    have hchar : c = Char.ofNat 8 := by rw [← hc, Char.ofNat_toNat]
    subst hchar
    rfl
  split
  · rename_i hc
    have hchar : c = Char.ofNat 12 := by rw [← hc, Char.ofNat_toNat]
    subst hchar
    rfl
  split
  · rename_i hcontrol
    have htext : ("\\u00" ++ String.ofList [Nat.digitChar (c.toNat / 16),
        Nat.digitChar (c.toNat % 16)]).toList ++ rest =
        '\\' :: 'u' :: '0' :: '0' :: Nat.digitChar (c.toNat / 16) ::
          Nat.digitChar (c.toNat % 16) :: rest := by
      simp [String.toList_append]
    rw [htext, parseString_unicode, unicode_control hcontrol, Option.bind_some]
  · rename_i hquote hslash _ _ _ _ _ hcontrol
    rw [String.toList_singleton, List.singleton_append]
    rw [parseString, if_neg (not_or.mpr ⟨hslash, hcontrol⟩)]
    · exact hquote
    · exact fun _ _ _ _ _ h => absurd h hslash
    · exact fun _ _ h => absurd h hslash

/-- A string comes back from its quoted text. -/
theorem parseString_escaped (text rest : List Char) :
    parseString ((text.flatMap fun c => (escapeChar c).toList) ++ '"' :: rest) =
      some (text, rest) := by
  induction text with
  | nil => exact parseString_end rest
  | cons c text ih =>
      rw [List.flatMap_cons, List.append_assoc, parseString_escapeChar, ih, Option.map_some]

theorem quote_toList (text : String) :
    (quote text).toList =
      '"' :: ((text.toList.flatMap fun c => (escapeChar c).toList) ++ ['"']) := by
  simp [quote, String.toList_append, String.toList_join, List.flatMap_map]

/-! #### Values -/

/-- The texts of a value begin with no blank, bracket or brace but its own. -/
theorem isNumberChar_ne {c : Char} (hc : isNumberChar c) :
    isBlank c = false ∧ c ≠ '"' ∧ c ≠ '[' ∧ c ≠ '\x7b' := by
  refine ⟨?_, ?_, ?_, ?_⟩
  · cases hblank : isBlank c with
    | false => rfl
    | true =>
        simp only [isBlank, decide_eq_true_eq] at hblank
        rcases hblank with rfl | rfl | rfl | rfl <;> revert hc <;> decide
  all_goals
    rintro rfl
    revert hc
    decide

/-- A number ends where no number character follows. -/
theorem parseValue_number {text : String} (hnumber : isNumber text.toList)
    (hchars : text.toList.all isNumberChar) (fuel : ℕ) {rest : List Char}
    (hrest : ∀ c ∈ rest.head?, isNumberChar c = false) :
    parseValue (fuel + 1) (text.toList ++ rest) = some (.num text, rest) := by
  have htake : (text.toList ++ rest).takeWhile isNumberChar = text.toList := by
    rw [List.takeWhile_append_of_pos (List.all_eq_true.mp hchars)]
    cases rest with
    | nil => simp
    | cons c rest => simp [hrest c rfl]
  have hdrop : (text.toList ++ rest).dropWhile isNumberChar = rest := by
    rw [List.dropWhile_append_of_pos (List.all_eq_true.mp hchars)]
    cases rest with
    | nil => rfl
    | cons c rest => simp [hrest c rfl]
  obtain ⟨c, chars, hcons⟩ : ∃ c chars, text.toList = c :: chars := by
    cases htext : text.toList with
    | nil =>
        rw [htext] at hnumber
        cases hnumber
    | cons c chars => exact ⟨c, chars, rfl⟩
  have hc : isNumberChar c := List.all_eq_true.mp hchars c (hcons ▸ List.mem_cons_self)
  obtain ⟨hblank, hquote, hbracket, hbrace⟩ := isNumberChar_ne hc
  have hshape : text.toList ++ rest = c :: (chars ++ rest) := by rw [hcons, List.cons_append]
  rw [hshape] at htake hdrop ⊢
  unfold parseValue
  simp only [skipBlanks_cons hblank, if_neg hquote, if_neg hbracket, if_neg hbrace, htake, hdrop,
    hc, hnumber, and_self, if_true, String.ofList_toList]

theorem parseValue_string (text : String) (fuel : ℕ) (rest : List Char) :
    parseValue (fuel + 1) ((quote text).toList ++ rest) = some (.str text, rest) := by
  have hshape : (quote text).toList ++ rest =
      '"' :: ((text.toList.flatMap fun c => (escapeChar c).toList) ++ '"' :: rest) := by
    rw [quote_toList, List.cons_append, List.append_assoc, List.singleton_append]
  rw [hshape, parseValue, skipBlanks_cons (by decide)]
  simp only [if_true, parseString_escaped, Option.map_some, String.ofList_toList]

/-- What a value's text begins with is no blank and closes no array. -/
theorem stringify_head {j : Json} (hj : j.printable) :
    ∃ c text, j.stringify.toList = c :: text ∧ isBlank c = false ∧ c ≠ ']' := by
  match j with
  | .null => exact ⟨'n', ['u', 'l', 'l'], rfl, by decide, by decide⟩
  | .bool true => exact ⟨'t', ['r', 'u', 'e'], rfl, by decide, by decide⟩
  | .bool false => exact ⟨'f', ['a', 'l', 's', 'e'], rfl, by decide, by decide⟩
  | .str text => exact ⟨'"', _, quote_toList text, by decide, by decide⟩
  | .num text =>
      simp only [printable, decide_eq_true_eq] at hj
      obtain ⟨hnumber, hchars⟩ := hj
      cases htext : text.toList with
      | nil =>
          rw [htext] at hnumber
          cases hnumber
      | cons c chars =>
          have hc : isNumberChar c := List.all_eq_true.mp hchars c (htext ▸ List.mem_cons_self)
          refine ⟨c, chars, htext, (isNumberChar_ne hc).1, ?_⟩
          rintro rfl
          revert hc
          decide
  | .arr items =>
      refine ⟨'[', (stringifyItems items).toList ++ [']'], ?_, by decide, by decide⟩
      simp [stringify, String.toList_append]
  | .obj fields =>
      refine ⟨'\x7b', (stringifyFields fields).toList ++ ['\x7d'], ?_, by decide, by decide⟩
      simp [stringify, String.toList_append]

theorem stringifyItems_cons (item next : Json) (rest : List Json) :
    stringifyItems (item :: next :: rest) =
      stringify item ++ "," ++ stringifyItems (next :: rest) := by
  rw [stringifyItems]
  simp

theorem stringifyFields_cons (key : String) (value : Json) (next : String × Json)
    (rest : List (String × Json)) :
    stringifyFields ((key, value) :: next :: rest) =
      quote key ++ ":" ++ stringify value ++ "," ++ stringifyFields (next :: rest) := by
  rw [stringifyFields]
  simp

theorem stringifyItems_head {item : Json} (hj : item.printable) (items : List Json) :
    ∃ c text, (stringifyItems (item :: items)).toList = c :: text ∧ isBlank c = false ∧ c ≠ ']' := by
  obtain ⟨c, text, hitem, hblank, hne⟩ := stringify_head hj
  cases items with
  | nil => exact ⟨c, text, hitem, hblank, hne⟩
  | cons next items =>
      refine ⟨c, text ++ ',' :: (stringifyItems (next :: items)).toList, ?_, hblank, hne⟩
      simp [stringifyItems_cons, String.toList_append, hitem]

theorem stringifyFields_head (key : String) (value : Json) (fields : List (String × Json)) :
    ∃ text, (stringifyFields ((key, value) :: fields)).toList = '"' :: text := by
  cases fields with
  | nil => simp [stringifyFields, String.toList_append, quote_toList]
  | cons next fields => simp [stringifyFields_cons, String.toList_append, quote_toList]

theorem parseValue_arr {c : Char} (hblank : isBlank c = false) (hne : c ≠ ']') (fuel : ℕ)
    (text : List Char) :
    parseValue (fuel + 1) ('[' :: c :: text) =
      (parseItems fuel (c :: text)).map fun (items, rest) => (.arr items, rest) := by
  rw [parseValue, skipBlanks_cons (by decide)]
  simp only [skipBlanks_cons hblank]
  rw [if_neg (by decide), if_pos trivial]
  split
  · rename_i heq
    exact absurd (List.cons.inj heq).1 hne
  · rfl

theorem parseValue_obj (fuel : ℕ) (text : List Char) :
    parseValue (fuel + 1) ('\x7b' :: '"' :: text) =
      (parseFields fuel ('"' :: text)).map fun (fields, rest) => (.obj fields, rest) := by
  rw [parseValue, skipBlanks_cons (by decide)]
  have hquote : skipBlanks ('"' :: text) = '"' :: text := skipBlanks_cons (by decide) text
  simp only [hquote]
  rw [if_neg (by decide), if_neg (by decide), if_pos trivial]
  split
  · rename_i heq
    exact absurd (List.cons.inj heq).1 (by decide)
  · rfl

/-- A closing bracket or a comma ends a number. -/
theorem no_number_head {c : Char} (hc : isNumberChar c = false) (rest : List Char) :
    ∀ d ∈ (c :: rest).head?, isNumberChar d = false := by
  intro d hd
  rw [List.head?_cons, Option.mem_def, Option.some.injEq] at hd
  rw [← hd]
  exact hc

mutual

/-- A value comes back from its text. -/
theorem parseValue_stringify : ∀ (j : Json), j.printable → ∀ (fuel : ℕ), j.size ≤ fuel →
    ∀ rest : List Char, (∀ c ∈ rest.head?, isNumberChar c = false) →
      parseValue fuel (j.stringify.toList ++ rest) = some (j, rest)
  | j, _, 0, hfuel, _, _ => by cases j <;> simp [size] at hfuel
  | .null, _, fuel + 1, _, rest, _ => by
      simp [parseValue, stringify, skipBlanks, isBlank, isNumberChar]
  | .bool b, _, fuel + 1, _, rest, _ => by
      cases b <;> simp [parseValue, stringify, skipBlanks, isBlank, isNumberChar]
  | .num text, hj, fuel + 1, _, rest, hrest => by
      simp only [printable, decide_eq_true_eq] at hj
      exact parseValue_number hj.1 hj.2 fuel hrest
  | .str text, _, fuel + 1, _, rest, _ => parseValue_string text fuel rest
  | .arr [], _, fuel + 1, _, rest, _ => by
      simp [parseValue, stringify, stringifyItems, skipBlanks, isBlank]
  | .arr (item :: items), hj, fuel + 1, hfuel, rest, _ => by
      have hitems := parseItems_stringify item items hj fuel
        (by simp only [size] at hfuel; omega) rest
      simp only [printable, printableItems, decide_eq_true_eq] at hj
      obtain ⟨c, text, hhead, hblank, hne⟩ := stringifyItems_head hj.1 items
      have hshape : (stringify (.arr (item :: items))).toList ++ rest =
          '[' :: ((stringifyItems (item :: items)).toList ++ ']' :: rest) := by
        simp [stringify, String.toList_append]
      rw [hhead, List.cons_append] at hitems hshape
      rw [hshape, parseValue_arr hblank hne, hitems, Option.map_some]
  | .obj [], _, fuel + 1, _, rest, _ => by
      simp [parseValue, stringify, stringifyFields, skipBlanks, isBlank]
  | .obj ((key, value) :: fields), hj, fuel + 1, hfuel, rest, _ => by
      have hfields := parseFields_stringify key value fields hj fuel
        (by simp only [size] at hfuel; omega) rest
      obtain ⟨text, hhead⟩ := stringifyFields_head key value fields
      have hshape : (stringify (.obj ((key, value) :: fields))).toList ++ rest =
          '\x7b' :: ((stringifyFields ((key, value) :: fields)).toList ++ '\x7d' :: rest) := by
        simp [stringify, String.toList_append]
      rw [hhead, List.cons_append] at hfields hshape
      rw [hshape, parseValue_obj, hfields, Option.map_some]

theorem parseItems_stringify : ∀ (item : Json) (items : List Json),
    printableItems (item :: items) → ∀ (fuel : ℕ), itemsSize (item :: items) ≤ fuel →
      ∀ rest : List Char, parseItems fuel ((stringifyItems (item :: items)).toList ++ ']' :: rest) =
        some (item :: items, rest)
  | item, items, _, 0, hfuel, _ => by simp [itemsSize] at hfuel
  | item, [], hj, fuel + 1, hfuel, rest => by
      simp only [printableItems, decide_eq_true_eq] at hj
      have hitem := parseValue_stringify item hj.1 fuel
        (by simp only [itemsSize] at hfuel; omega) (']' :: rest) (no_number_head (by decide) rest)
      rw [parseItems, stringifyItems, hitem, Option.bind_some]
      simp only [skipBlanks_cons (c := ']') (by decide)]
  | item, next :: items, hj, fuel + 1, hfuel, rest => by
      rw [printableItems, decide_eq_true_eq] at hj
      simp only [itemsSize] at hfuel
      have hitem := parseValue_stringify item hj.1 fuel (by omega)
        (',' :: ((stringifyItems (next :: items)).toList ++ ']' :: rest))
        (no_number_head (by decide) _)
      have hitems := parseItems_stringify next items hj.2 fuel
        (by simp only [itemsSize]; omega) rest
      have hshape : (stringifyItems (item :: next :: items)).toList ++ ']' :: rest =
          item.stringify.toList ++
            ',' :: ((stringifyItems (next :: items)).toList ++ ']' :: rest) := by
        simp [stringifyItems_cons, String.toList_append]
      rw [hshape, parseItems, hitem, Option.bind_some]
      simp only [skipBlanks_cons (c := ',') (by decide), hitems, Option.map_some]

theorem parseFields_stringify : ∀ (key : String) (value : Json) (fields : List (String × Json)),
    printableFields ((key, value) :: fields) → ∀ (fuel : ℕ),
      fieldsSize ((key, value) :: fields) ≤ fuel → ∀ rest : List Char,
        parseFields fuel ((stringifyFields ((key, value) :: fields)).toList ++ '\x7d' :: rest) =
          some ((key, value) :: fields, rest)
  | key, value, fields, _, 0, hfuel, _ => by simp [fieldsSize] at hfuel
  | key, value, [], hj, fuel + 1, hfuel, rest => by
      simp only [printableFields, decide_eq_true_eq] at hj
      have hvalue := parseValue_stringify value hj.1 fuel
        (by simp only [fieldsSize] at hfuel; omega) ('\x7d' :: rest)
        (no_number_head (by decide) rest)
      have hshape : (stringifyFields [(key, value)]).toList ++ '\x7d' :: rest =
          '"' :: ((key.toList.flatMap fun c => (escapeChar c).toList) ++
            '"' :: ':' :: (value.stringify.toList ++ '\x7d' :: rest)) := by
        simp [stringifyFields, String.toList_append, quote_toList]
      rw [hshape, parseFields, skipBlanks_cons (by decide)]
      simp only [parseString_escaped, Option.bind_some, skipBlanks_cons (c := ':') (by decide),
        hvalue, skipBlanks_cons (c := '\x7d') (by decide), String.ofList_toList]
  | key, value, (key', value') :: fields, hj, fuel + 1, hfuel, rest => by
      rw [printableFields, decide_eq_true_eq] at hj
      simp only [fieldsSize] at hfuel
      have hvalue := parseValue_stringify value hj.1 fuel (by omega)
        (',' :: ((stringifyFields ((key', value') :: fields)).toList ++ '\x7d' :: rest))
        (no_number_head (by decide) _)
      have hfields := parseFields_stringify key' value' fields hj.2 fuel
        (by simp only [fieldsSize]; omega) rest
      have hshape : (stringifyFields ((key, value) :: (key', value') :: fields)).toList ++
          '\x7d' :: rest =
          '"' :: ((key.toList.flatMap fun c => (escapeChar c).toList) ++
            '"' :: ':' :: (value.stringify.toList ++
              ',' :: ((stringifyFields ((key', value') :: fields)).toList ++ '\x7d' :: rest))) := by
        simp [stringifyFields_cons, String.toList_append, quote_toList]
      rw [hshape, parseFields, skipBlanks_cons (by decide)]
      simp only [parseString_escaped, Option.bind_some, skipBlanks_cons (c := ':') (by decide),
        hvalue, skipBlanks_cons (c := ',') (by decide), hfields, Option.map_some,
        String.ofList_toList]

end

/-! #### Fuel -/

mutual

/-- The text of a value is at least as long as the fuel that it takes. -/
theorem size_le_length : ∀ (j : Json), j.printable → j.size ≤ j.stringify.toList.length
  | .null, _ => by simp [size, stringify]
  | .bool b, _ => by cases b <;> simp [size, stringify]
  | .num text, hj => by
      simp only [printable, decide_eq_true_eq] at hj
      cases htext : text.toList with
      | nil =>
          rw [htext] at hj
          cases hj.1
      | cons c chars => simp [size, stringify, htext]
  | .str text, _ => by simp [size, stringify, quote_toList]
  | .arr items, hj => by
      have hitems := itemsSize_le_length items hj
      have hopen : "[".toList.length = 1 := rfl
      have hclose : "]".toList.length = 1 := rfl
      simp only [size, stringify, String.toList_append, List.length_append, hopen, hclose]
      omega
  | .obj fields, hj => by
      have hfields := fieldsSize_le_length fields hj
      have hopen : "\x7b".toList.length = 1 := rfl
      have hclose : "\x7d".toList.length = 1 := rfl
      simp only [size, stringify, String.toList_append, List.length_append, hopen, hclose]
      omega

theorem itemsSize_le_length : ∀ (items : List Json), printableItems items →
    itemsSize items ≤ (stringifyItems items).toList.length + 1
  | [], _ => by simp [itemsSize]
  | [item], hj => by
      simp only [printableItems, decide_eq_true_eq] at hj
      have hitem := size_le_length item hj.1
      simp only [itemsSize, stringifyItems]
      omega
  | item :: next :: rest, hj => by
      rw [printableItems, decide_eq_true_eq] at hj
      have hitem := size_le_length item hj.1
      have hrest := itemsSize_le_length (next :: rest) hj.2
      have hcomma : ",".toList.length = 1 := rfl
      rw [itemsSize, stringifyItems_cons, String.toList_append, String.toList_append,
        List.length_append, List.length_append, hcomma]
      omega

theorem fieldsSize_le_length : ∀ (fields : List (String × Json)), printableFields fields →
    fieldsSize fields ≤ (stringifyFields fields).toList.length + 1
  | [], _ => by simp [fieldsSize]
  | [(key, value)], hj => by
      simp only [printableFields, decide_eq_true_eq] at hj
      have hvalue := size_le_length value hj.1
      simp only [fieldsSize, stringifyFields, String.toList_append, List.length_append]
      omega
  | (key, value) :: next :: rest, hj => by
      rw [printableFields, decide_eq_true_eq] at hj
      have hvalue := size_le_length value hj.1
      have hrest := fieldsSize_le_length (next :: rest) hj.2
      have hcomma : ",".toList.length = 1 := rfl
      rw [fieldsSize, stringifyFields_cons]
      simp only [String.toList_append, List.length_append, hcomma]
      omega

end

/-- **The round trip.**  A value whose numbers are number tokens is what `JSON.parse` reads
from the text that `JSON.stringify` writes. -/
theorem parse_stringify {j : Json} (hj : j.printable) : parse j.stringify = some j := by
  have hfuel : j.size ≤ j.stringify.length + 1 := by
    have hsize := size_le_length j hj
    rw [String.length_toList] at hsize
    omega
  have hvalue := parseValue_stringify j hj _ hfuel [] (fun _ h => nomatch h)
  rw [List.append_nil] at hvalue
  rw [parse, hvalue, Option.bind_some]
  exact if_pos rfl

end Json
