import Mathlib.Tactic

/-! The tokens of SQL text, read by a machine one byte at a time: words, text in quotes with a doubled
quote for one of its own, single symbols; white space and comments stand between them. -/
namespace Chats.Lib
set_option autoImplicit false

namespace Sql

inductive Token
  | word (name : List UInt8)
  | quoted (quote : UInt8) (value : List UInt8)
  | bracketed (value : List UInt8)
  | symbol (byte : UInt8)
deriving DecidableEq

/-- Where the machine is: outside the tokens, inside one, or behind a byte that may begin or end
more than one thing. `closing` is behind a quote that either ends the text or is the first of two. -/
inductive Mode
  | between
  | word (read : List UInt8)
  | quoted (quote : UInt8) (read : List UInt8)
  | closing (quote : UInt8) (read : List UInt8)
  | bracket (read : List UInt8)
  | dash
  | lineComment
  | slash
  | blockComment
  | star
deriving DecidableEq

structure Reader where
  mode : Mode
  tokens : List Token
deriving DecidableEq

def isSpace (b : UInt8) : Bool := b ∈ [0x20, 0x09, 0x0a, 0x0c, 0x0d]

def isQuote (b : UInt8) : Bool := b ∈ [0x27, 0x22, 0x60]

/-- Letters, digits, the underscore, the dollar sign and everything outside ASCII. -/
def isNameByte (b : UInt8) : Bool :=
  (0x30 ≤ b && b ≤ 0x39) || (0x41 ≤ b && b ≤ 0x5a) || (0x61 ≤ b && b ≤ 0x7a) || b = 0x5f || b = 0x24 || 0x80 ≤ b

/-- A byte outside the tokens. -/
def begin (tokens : List Token) (b : UInt8) : Reader :=
  if isSpace b then ⟨.between, tokens⟩
  else if isQuote b then ⟨.quoted b [], tokens⟩
  else if b = 0x5b then ⟨.bracket [], tokens⟩
  else if b = 0x2d then ⟨.dash, tokens⟩
  else if b = 0x2f then ⟨.slash, tokens⟩
  else if isNameByte b then ⟨.word [b], tokens⟩
  else ⟨.between, tokens ++ [.symbol b]⟩

def step (r : Reader) (b : UInt8) : Reader :=
  match r.mode with
  | .between => begin r.tokens b
  | .word read => if isNameByte b then ⟨.word (read ++ [b]), r.tokens⟩ else begin (r.tokens ++ [.word read]) b
  | .quoted q read => if b = q then ⟨.closing q read, r.tokens⟩ else ⟨.quoted q (read ++ [b]), r.tokens⟩
  | .closing q read => if b = q then ⟨.quoted q (read ++ [b]), r.tokens⟩ else begin (r.tokens ++ [.quoted q read]) b
  | .bracket read => if b = 0x5d then ⟨.between, r.tokens ++ [.bracketed read]⟩ else ⟨.bracket (read ++ [b]), r.tokens⟩
  | .dash => if b = 0x2d then ⟨.lineComment, r.tokens⟩ else begin (r.tokens ++ [.symbol 0x2d]) b
  | .lineComment => if b = 0x0a then ⟨.between, r.tokens⟩ else r
  | .slash => if b = 0x2a then ⟨.blockComment, r.tokens⟩ else begin (r.tokens ++ [.symbol 0x2f]) b
  | .blockComment => if b = 0x2a then ⟨.star, r.tokens⟩ else r
  | .star => if b = 0x2f then ⟨.between, r.tokens⟩ else if b = 0x2a then r else ⟨.blockComment, r.tokens⟩

/-- At the end of the text: quotes must be closed, comments need not. -/
def finish (r : Reader) : Option (List Token) :=
  match r.mode with
  | .between => some r.tokens
  | .word read => some (r.tokens ++ [.word read])
  | .quoted _ _ => none
  | .closing q read => some (r.tokens ++ [.quoted q read])
  | .bracket _ => none
  | .dash => some (r.tokens ++ [.symbol 0x2d])
  | .lineComment => some r.tokens
  | .slash => some (r.tokens ++ [.symbol 0x2f])
  | .blockComment => some r.tokens
  | .star => some r.tokens

def read (text : List UInt8) (r : Reader) : Reader := text.foldl step r

def tokenize (text : List UInt8) : Option (List Token) := finish (read text ⟨.between, []⟩)

theorem read_append (a b : List UInt8) (r : Reader) : read (a ++ b) r = read b (read a r) := List.foldl_append

/-- Text without the quote goes into the value as it stands. -/
theorem read_quoted {q : UInt8} {text : List UInt8} (hq : q ∉ text) (value : List UInt8) (tokens : List Token) :
    read text ⟨.quoted q value, tokens⟩ = ⟨.quoted q (value ++ text), tokens⟩ := by
  induction text generalizing value with
  | nil => rw [List.append_nil]; rfl
  | cons b text ih =>
    have hb : b ≠ q := fun e => hq (e ▸ List.mem_cons_self)
    have hstep : step ⟨.quoted q value, tokens⟩ b = ⟨.quoted q (value ++ [b]), tokens⟩ := if_neg hb
    calc read (b :: text) ⟨.quoted q value, tokens⟩
        = read text ⟨.quoted q (value ++ [b]), tokens⟩ := by rw [← hstep]; rfl
      _ = ⟨.quoted q (value ++ b :: text), tokens⟩ := by
        rw [ih fun h => hq (List.mem_cons_of_mem _ h), List.append_assoc, List.singleton_append]

/-! ## The quotes of a text -/

/-- How many quotes `q` the text of a token has at least: the two around it, and two for each in it. -/
def Token.quotes (q : UInt8) : Token → ℕ
  | .quoted quote value => if quote = q then 2 + 2 * value.count q else 0
  | .word _ => 0
  | .bracketed _ => 0
  | .symbol _ => 0

def tokenQuotes (q : UInt8) (tokens : List Token) : ℕ := (tokens.map (Token.quotes q)).sum

def Mode.quotes (q : UInt8) : Mode → ℕ
  | .quoted quote read => if quote = q then 1 + 2 * read.count q else 0
  | .closing quote read => if quote = q then 2 + 2 * read.count q else 0
  | _ => 0

def Reader.quotes (q : UInt8) (r : Reader) : ℕ := tokenQuotes q r.tokens + r.mode.quotes q

theorem tokenQuotes_append (q : UInt8) (a b : List Token) :
    tokenQuotes q (a ++ b) = tokenQuotes q a + tokenQuotes q b := by
  rw [tokenQuotes, List.map_append, List.sum_append]
  rfl

theorem tokenQuotes_singleton (q : UInt8) (t : Token) : tokenQuotes q [t] = t.quotes q := List.sum_singleton

theorem begin_quotes (q : UInt8) (tokens : List Token) (b : UInt8) :
    (begin tokens b).quotes q ≤ tokenQuotes q tokens + if b = q then 1 else 0 := by
  unfold begin
  split_ifs <;> simp_all [Reader.quotes, Mode.quotes, tokenQuotes_append, tokenQuotes_singleton, Token.quotes]

theorem begin_append_quotes (q : UInt8) (tokens : List Token) (t : Token) (b : UInt8) :
    (begin (tokens ++ [t]) b).quotes q ≤ tokenQuotes q tokens + t.quotes q + if b = q then 1 else 0 := by
  have h := begin_quotes q (tokens ++ [t]) b
  rwa [tokenQuotes_append, tokenQuotes_singleton] at h

/-- A byte adds at most itself. -/
theorem step_quotes (q : UInt8) (r : Reader) (b : UInt8) :
    (step r b).quotes q ≤ r.quotes q + if b = q then 1 else 0 := by
  obtain ⟨mode, tokens⟩ := r
  cases mode with
  | between => exact begin_quotes q tokens b
  | word read =>
    by_cases hname : isNameByte b
    · simp [step, hname, Reader.quotes, Mode.quotes]
    · have hbegin := begin_append_quotes q tokens (.word read) b
      simpa [step, hname, Reader.quotes, Mode.quotes, Token.quotes] using hbegin
  | quoted quote read =>
    by_cases hb : b = quote
    · subst hb
      by_cases hq : b = q <;> simp [step, hq, Reader.quotes, Mode.quotes]
      omega
    · have hcount : (read ++ [b]).count q = read.count q + if b = q then 1 else 0 := by
        rw [List.count_append, List.count_singleton]
        simp
      by_cases hq : quote = q
      · have hbq : b ≠ q := fun e => hb (e.trans hq.symm)
        simp [step, hq, hbq, Reader.quotes, Mode.quotes, hcount]
      · simp [step, hb, hq, Reader.quotes, Mode.quotes]
  | closing quote read =>
    by_cases hb : b = quote
    · subst hb
      by_cases hq : b = q <;> simp [step, hq, Reader.quotes, Mode.quotes]
      omega
    · have hbegin := begin_append_quotes q tokens (.quoted quote read) b
      simpa [step, hb, Reader.quotes, Mode.quotes, Token.quotes] using hbegin
  | bracket read =>
    by_cases hb : b = 0x5d <;>
      simp [step, hb, Reader.quotes, Mode.quotes, tokenQuotes_append, tokenQuotes_singleton, Token.quotes]
  | dash =>
    by_cases hb : b = 0x2d
    · simp [step, hb, Reader.quotes, Mode.quotes]
    · have hbegin := begin_append_quotes q tokens (.symbol 0x2d) b
      simpa [step, hb, Reader.quotes, Mode.quotes, Token.quotes] using hbegin
  | slash =>
    by_cases hb : b = 0x2a
    · simp [step, hb, Reader.quotes, Mode.quotes]
    · have hbegin := begin_append_quotes q tokens (.symbol 0x2f) b
      simpa [step, hb, Reader.quotes, Mode.quotes, Token.quotes] using hbegin
  | lineComment =>
    by_cases hb : b = 0x0a <;> simp [step, hb, Reader.quotes, Mode.quotes]
  | blockComment =>
    by_cases hb : b = 0x2a <;> simp [step, hb, Reader.quotes, Mode.quotes]
  | star =>
    by_cases hb : b = 0x2f
    · simp [step, hb, Reader.quotes, Mode.quotes]
    · by_cases hb' : b = 0x2a <;> simp [step, hb, hb', Reader.quotes, Mode.quotes]

theorem read_quotes (q : UInt8) (text : List UInt8) (r : Reader) :
    (read text r).quotes q ≤ r.quotes q + text.count q := by
  induction text generalizing r with
  | nil => exact Nat.le_refl _
  | cons b text ih =>
    calc (read (b :: text) r).quotes q = (read text (step r b)).quotes q := rfl
      _ ≤ (step r b).quotes q + text.count q := ih _
      _ ≤ r.quotes q + (if b = q then 1 else 0) + text.count q := Nat.add_le_add_right (step_quotes q r b) _
      _ = r.quotes q + (b :: text).count q := by
        rw [List.count_cons]
        simp only [beq_iff_eq]
        omega

theorem finish_quotes (q : UInt8) {r : Reader} {tokens : List Token} (h : finish r = some tokens) :
    tokenQuotes q tokens ≤ r.quotes q := by
  obtain ⟨mode, before⟩ := r
  cases mode <;> cases h <;> simp [Reader.quotes, Mode.quotes, tokenQuotes_append, tokenQuotes_singleton, Token.quotes]

/-- The quotes that the tokens need are there in the text. -/
theorem tokenize_quotes (q : UInt8) {text : List UInt8} {tokens : List Token} (h : tokenize text = some tokens) :
    tokenQuotes q tokens ≤ text.count q := by
  calc tokenQuotes q tokens ≤ (read text ⟨.between, []⟩).quotes q := finish_quotes q h
    _ ≤ Reader.quotes q ⟨.between, []⟩ + text.count q := read_quotes q text _
    _ = text.count q := Nat.zero_add _

end Sql

end Chats.Lib
