import Mathlib.Data.List.Basic

/-!
# `like`

`text like pattern` of SQL: `%` stands for any characters, `_` for one.  SQLite
compares ASCII letters without their case; in Postgres a backslash takes the next
character of the pattern as it is.

`like_literal` says what a pattern that begins with a text without `%` and `\` demands.
-/

namespace Like

/-- How two characters are compared, and whether a backslash escapes. -/
structure Rules where
  same : Char → Char → Bool
  escape : Bool

/-- SQLite's rules. -/
def sqlite : Rules := ⟨fun a b => a.toLower = b.toLower, false⟩

/-- Postgres' rules. -/
def postgres : Rules := ⟨fun a b => a = b, true⟩

/-- An element of a pattern. -/
inductive Token where
  | many
  | one
  | char (c : Char)
deriving Repr, DecidableEq

/-- The element that a character stands for on its own. -/
def token (c : Char) : Token :=
  if c = '%' then .many else if c = '_' then .one else .char c

/-- The elements of a pattern. -/
def tokens (rules : Rules) : List Char → List Token
  | [] => []
  | [c] => [token c]
  | c :: d :: pattern =>
      if rules.escape ∧ c = '\\' then .char d :: tokens rules pattern
      else token c :: tokens rules (d :: pattern)

/-- Whether a text has the form of a pattern. -/
def matchTokens (rules : Rules) : List Token → List Char → Bool
  | [], text => text.isEmpty
  | .many :: pattern, text => text.tails.any fun rest => matchTokens rules pattern rest
  | .one :: _, [] => false
  | .one :: pattern, _ :: rest => matchTokens rules pattern rest
  | .char _ :: _, [] => false
  | .char p :: pattern, c :: rest => rules.same p c && matchTokens rules pattern rest

/-- `text like pattern`. -/
def like (rules : Rules) (pattern text : String) : Bool :=
  matchTokens rules (tokens rules pattern.toList) text.toList

example : like sqlite "usr_a:%" "USRxA:42" = true := by decide

example : like postgres "usr_a:%" "USRxA:42" = false := by decide

/-- One character of a literal takes one character of the text. -/
def matchesOne (rules : Rules) (p c : Char) : Prop := p = '_' ∨ rules.same p c

theorem tokens_cons {rules : Rules} {c : Char} (hc : c ≠ '\\') (pattern : List Char) :
    tokens rules (c :: pattern) = token c :: tokens rules pattern := by
  cases pattern with
  | nil => rfl
  | cons d pattern => rw [tokens, if_neg fun hboth => hc hboth.2]

/-- A literal beginning of a pattern takes as many characters of the text, one by one. -/
theorem matchTokens_literal {rules : Rules} {literal pattern : List Char}
    (hliteral : ∀ p ∈ literal, p ≠ '%' ∧ p ≠ '\\') :
    ∀ {text : List Char}, matchTokens rules (tokens rules (literal ++ pattern)) text →
      ∃ front rest, text = front ++ rest ∧ List.Forall₂ (matchesOne rules) literal front ∧
        matchTokens rules (tokens rules pattern) rest := by
  induction literal with
  | nil =>
      intro text h
      exact ⟨[], text, rfl, .nil, h⟩
  | cons p literal ih =>
      intro text h
      obtain ⟨hpercent, hescape⟩ := hliteral p List.mem_cons_self
      have htail : ∀ q ∈ literal, q ≠ '%' ∧ q ≠ '\\' :=
        fun q hq => hliteral q (List.mem_cons_of_mem _ hq)
      rw [List.cons_append, tokens_cons hescape, token, if_neg hpercent] at h
      by_cases hany : p = '_'
      · rw [if_pos hany] at h
        cases text with
        | nil => cases h
        | cons c text =>
            obtain ⟨front, rest, rfl, hfront, hrest⟩ := ih htail h
            exact ⟨c :: front, rest, rfl, .cons (.inl hany) hfront, hrest⟩
      · rw [if_neg hany] at h
        cases text with
        | nil => cases h
        | cons c text =>
            obtain ⟨hsame, hmatch⟩ := Bool.and_eq_true_iff.mp h
            obtain ⟨front, rest, rfl, hfront, hrest⟩ := ih htail hmatch
            exact ⟨c :: front, rest, rfl, .cons (.inr hsame) hfront, hrest⟩

/-- `text like literal || pattern`. -/
theorem like_literal {rules : Rules} {literal pattern text : String}
    (hliteral : ∀ p ∈ literal.toList, p ≠ '%' ∧ p ≠ '\\')
    (h : like rules (literal ++ pattern) text) :
    ∃ front rest, text.toList = front ++ rest ∧
      List.Forall₂ (matchesOne rules) literal.toList front ∧
      matchTokens rules (tokens rules pattern.toList) rest := by
  unfold like at h
  rw [String.toList_append] at h
  exact matchTokens_literal hliteral h

end Like
