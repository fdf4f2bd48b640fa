import Chats.Lib.SqlTokens
import Chats.P2p.Server.DaoCache

/-! # The SQL of the client directory

The requests that `chats/p2p/server/dao/dao.c` makes of C strings with `sprintf`. A width in a format
fills up with spaces in front and cuts nothing, and nothing is done about quotes in a string. -/
namespace Chats.Dao
set_option autoImplicit false

open Lib Lib.Sql

/-- The bytes of a text in ASCII. -/
def ascii (s : String) : List UInt8 := s.toList.map fun c => UInt8.ofNat c.toNat

/-- A piece of a format: text as it stands, or `%<width>s`. -/
inductive Piece
  | text (s : String)
  | str (width : ℕ)

/-- `%<width>s`: at least `width` chars, with spaces in front. -/
def padded (width : ℕ) (s : List UInt8) : List UInt8 := List.replicate (width - s.length) 0x20 ++ s

/-- `sprintf` with as many arguments as conversions. -/
def sprintf : List Piece → List CString → List UInt8
  | [], _ => []
  | .text s :: rest, args => ascii s ++ sprintf rest args
  | .str _ :: _, [] => []
  | .str width :: rest, arg :: args => padded width arg.1 ++ sprintf rest args

/-- `BUFFER(buffer)` -/
def bufferLength : ℕ := 1024

def addClientRequestTpl : List Piece :=
  [.text "INSERT INTO clients (nickname, host, port) VALUES ('", .str 15, .text "', '", .str 256, .text "', '",
    .str 5, .text "')"]

def removeClientByNicknameRequestTpl : List Piece :=
  [.text "DELETE FROM clients WHERE nickname = '", .str 15, .text "'"]

def removeClientByAddrRequestTpl : List Piece :=
  [.text "DELETE FROM clients WHERE host = '", .str 256, .text "' AND port = '", .str 5, .text "'"]

def addClientRequest (cl : DaoClient) : List UInt8 := sprintf addClientRequestTpl [cl.nickname, cl.host, cl.port]

def removeClientByNicknameRequest (nickname : CString) : List UInt8 :=
  sprintf removeClientByNicknameRequestTpl [nickname]

def removeClientByAddrRequest (host port : CString) : List UInt8 :=
  sprintf removeClientByAddrRequestTpl [host, port]

/-! ## What the requests are to say -/

def word (s : String) : Token := .word (ascii s)

/-- A string literal. -/
def literal (value : List UInt8) : Token := .quoted 0x27 value

def leftParen : Token := .symbol 0x28
def rightParen : Token := .symbol 0x29
def comma : Token := .symbol 0x2c
def equals : Token := .symbol 0x3d

def addClientTokens (nickname host port : List UInt8) : List Token :=
  [word "INSERT", word "INTO", word "clients", leftParen, word "nickname", comma, word "host", comma, word "port",
    rightParen, word "VALUES", leftParen, literal nickname, comma, literal host, comma, literal port, rightParen]

def removeClientByNicknameTokens (nickname : List UInt8) : List Token :=
  [word "DELETE", word "FROM", word "clients", word "WHERE", word "nickname", equals, literal nickname]

def removeClientByAddrTokens (host port : List UInt8) : List Token :=
  [word "DELETE", word "FROM", word "clients", word "WHERE", word "host", equals, literal host, word "AND",
    word "port", equals, literal port]

/-- The request fits into the buffer with its terminator, and its tokens are these. -/
structure Denotes (request : List UInt8) (tokens : List Token) : Prop where
  fits : request.length + 1 ≤ bufferLength
  tokens : tokenize request = some tokens

/-- The comparisons of a condition: a column and the literal that it is to equal. -/
def comparisons : List Token → List (List UInt8 × List UInt8)
  | .word column :: .symbol 0x3d :: .quoted 0x27 value :: rest => (column, value) :: comparisons rest
  | _ :: rest => comparisons rest
  | [] => []

def column (row : DaoClient) (name : List UInt8) : Option (List UInt8) :=
  if name = ascii "nickname" then some row.nickname.1
  else if name = ascii "host" then some row.host.1
  else if name = ascii "port" then some row.port.1
  else none

/-- The rows that the condition of a request takes are those with `given`. -/
def Takes (request : List UInt8) (given : DaoClient → Prop) : Prop :=
  ∃ tokens, tokenize request = some tokens ∧
    ∀ row, (∀ c ∈ comparisons tokens, column row c.1 = some c.2) ↔ given row

/-! ## What they say -/

theorem padded_eq_iff (width : ℕ) (s : List UInt8) : padded width s = s ↔ width ≤ s.length := by
  rw [padded, List.append_left_eq_self, List.replicate_eq_nil_iff]
  omega

theorem count_padded (width : ℕ) (s : List UInt8) : (padded width s).count 0x27 = s.count 0x27 := by
  rw [padded, List.count_append, List.count_replicate]
  simp

theorem padded_length (width : ℕ) (s : List UInt8) : (padded width s).length = max width s.length := by
  rw [padded, List.length_append, List.length_replicate]
  omega

/-! ## Formats -/

/-- The widths of the conversions of a format. -/
def widths : List Piece → List ℕ
  | [] => []
  | .text _ :: rest => widths rest
  | .str width :: rest => width :: widths rest

/-- The text of a format, without the conversions. -/
def texts : List Piece → List UInt8
  | [] => []
  | .text s :: rest => ascii s ++ texts rest
  | .str _ :: rest => texts rest

section
variable {format : List Piece} {args : List CString} (hargs : args.length = (widths format).length)
include hargs

theorem sprintf_length : (sprintf format args).length =
    (texts format).length + (List.zipWith (fun width arg => max width arg.1.length) (widths format) args).sum := by
  induction format, args using sprintf.induct with
  | case1 args => simp [sprintf, texts, widths]
  | case2 s rest args ih =>
    rw [sprintf, texts, widths, List.length_append, List.length_append, ih hargs, Nat.add_assoc]
  | case3 width rest => cases hargs
  | case4 width rest arg args ih =>
    rw [sprintf, texts, widths, List.length_append, padded_length, ih (Nat.succ.inj hargs), List.zipWith_cons_cons,
      List.sum_cons]
    exact Nat.add_left_comm _ _ _

theorem count_sprintf : (sprintf format args).count 0x27 =
    (texts format).count 0x27 + (args.map fun arg => arg.1.count 0x27).sum := by
  induction format, args using sprintf.induct with
  | case1 args =>
    have hnil : args = [] := List.eq_nil_of_length_eq_zero hargs
    rw [hnil]
    rfl
  | case2 s rest args ih =>
    rw [sprintf, texts, List.count_append, List.count_append, ih hargs, Nat.add_assoc]
  | case3 width rest => cases hargs
  | case4 width rest arg args ih =>
    rw [sprintf, texts, List.count_append, count_padded, ih (Nat.succ.inj hargs), List.map_cons, List.sum_cons]
    exact Nat.add_left_comm _ _ _

/-- A string with a quote cannot be a literal of the request: it needs two quotes for each of its own,
and brings one. -/
theorem notMem_of_tokens {tokens : List Token} (h : tokenize (sprintf format args) = some tokens)
    (hneeds : tokenQuotes 0x27 tokens =
      (texts format).count 0x27 + 2 * (args.map fun arg => arg.1.count 0x27).sum) : ∀ arg ∈ args, 0x27 ∉ arg.1 := by
  have hle := tokenize_quotes 0x27 h
  rw [hneeds, count_sprintf hargs] at hle
  have hnone : (args.map fun arg => arg.1.count 0x27).sum = 0 := by omega
  intro arg harg
  exact List.count_eq_zero.mp (List.sum_eq_zero_iff.mp hnone _ (List.mem_map_of_mem harg))

end

/-! ## The requests -/

theorem read_padded {s : List UInt8} (hs : 0x27 ∉ s) (width : ℕ) (tokens : List Token) :
    read (padded width s) ⟨.quoted 0x27 [], tokens⟩ = ⟨.quoted 0x27 (padded width s), tokens⟩ := by
  have hpad : 0x27 ∉ padded width s := by
    rw [← List.count_eq_zero, count_padded, List.count_eq_zero]
    exact hs
  rw [read_quoted hpad, List.nil_append]

/-- Each template opens its first literal after the words that stand in front of it. -/
theorem read_openings :
    read (ascii "DELETE FROM clients WHERE nickname = '") ⟨.between, []⟩ =
      ⟨.quoted 0x27 [], [word "DELETE", word "FROM", word "clients", word "WHERE", word "nickname", equals]⟩ ∧
    read (ascii "DELETE FROM clients WHERE host = '") ⟨.between, []⟩ =
      ⟨.quoted 0x27 [], [word "DELETE", word "FROM", word "clients", word "WHERE", word "host", equals]⟩ ∧
    read (ascii "INSERT INTO clients (nickname, host, port) VALUES ('") ⟨.between, []⟩ =
      ⟨.quoted 0x27 [], [word "INSERT", word "INTO", word "clients", leftParen, word "nickname", comma, word "host",
        comma, word "port", rightParen, word "VALUES", leftParen]⟩ := by
  decide +kernel

/-- The quotes and the chars of the templates, without the conversions. -/
theorem template_texts :
    (texts removeClientByNicknameRequestTpl).count 0x27 = 2 ∧ (texts removeClientByNicknameRequestTpl).length = 39 ∧
    (texts removeClientByAddrRequestTpl).count 0x27 = 4 ∧ (texts removeClientByAddrRequestTpl).length = 49 ∧
    (texts addClientRequestTpl).count 0x27 = 6 := by
  decide +kernel

/-! Of strings without quotes the tokens are those of the template, with each string as it was padded. -/

theorem removeClientByNicknameRequest_tokens {nickname : CString} (hn : 0x27 ∉ nickname.1) :
    tokenize (removeClientByNicknameRequest nickname) =
      some (removeClientByNicknameTokens (padded 15 nickname.1)) := by
  obtain ⟨hopen, -, -⟩ := read_openings
  simp only [removeClientByNicknameRequest, sprintf, removeClientByNicknameRequestTpl, tokenize, read_append, hopen,
    read_padded hn]
  rfl

theorem removeClientByAddrRequest_tokens {host port : CString} (hh : 0x27 ∉ host.1) (hp : 0x27 ∉ port.1) :
    tokenize (removeClientByAddrRequest host port) =
      some (removeClientByAddrTokens (padded 256 host.1) (padded 5 port.1)) := by
  obtain ⟨-, hopen, -⟩ := read_openings
  have hand : ∀ value tokens, read (ascii "' AND port = '") ⟨.quoted 0x27 value, tokens⟩ =
      ⟨.quoted 0x27 [], tokens ++ [literal value] ++ [word "AND"] ++ [word "port"] ++ [equals]⟩ := fun _ _ => rfl
  simp only [removeClientByAddrRequest, sprintf, removeClientByAddrRequestTpl, tokenize, read_append, hopen, hand,
    read_padded hh, read_padded hp]
  rfl

theorem addClientRequest_tokens {cl : DaoClient} (hn : 0x27 ∉ cl.nickname.1) (hh : 0x27 ∉ cl.host.1)
    (hp : 0x27 ∉ cl.port.1) :
    tokenize (addClientRequest cl) =
      some (addClientTokens (padded 15 cl.nickname.1) (padded 256 cl.host.1) (padded 5 cl.port.1)) := by
  obtain ⟨-, -, hopen⟩ := read_openings
  have hcomma : ∀ value tokens, read (ascii "', '") ⟨.quoted 0x27 value, tokens⟩ =
      ⟨.quoted 0x27 [], tokens ++ [literal value] ++ [comma]⟩ := fun _ _ => rfl
  simp only [addClientRequest, sprintf, addClientRequestTpl, tokenize, read_append, hopen, hcomma, read_padded hn,
    read_padded hh, read_padded hp]
  rfl

theorem quotes_removeClientByNickname {nickname : CString}
    (h : tokenize (removeClientByNicknameRequest nickname) = some (removeClientByNicknameTokens nickname.1)) :
    0x27 ∉ nickname.1 := by
  obtain ⟨htexts, -⟩ := template_texts
  have hnone : ∀ arg ∈ [nickname], 0x27 ∉ arg.1 := by
    refine notMem_of_tokens rfl h ?_
    rw [htexts]
    simp [tokenQuotes, removeClientByNicknameTokens, Token.quotes, word, literal, equals]
  exact hnone nickname (List.mem_singleton_self nickname)

theorem quotes_removeClientByAddr {host port : CString}
    (h : tokenize (removeClientByAddrRequest host port) = some (removeClientByAddrTokens host.1 port.1)) :
    0x27 ∉ host.1 ∧ 0x27 ∉ port.1 := by
  obtain ⟨-, -, htexts, -⟩ := template_texts
  have hnone : ∀ arg ∈ [host, port], 0x27 ∉ arg.1 := by
    refine notMem_of_tokens rfl h ?_
    rw [htexts]
    simp [tokenQuotes, removeClientByAddrTokens, Token.quotes, word, literal, equals]
    omega
  exact ⟨hnone host (by simp), hnone port (by simp)⟩

theorem quotes_addClient {cl : DaoClient}
    (h : tokenize (addClientRequest cl) = some (addClientTokens cl.nickname.1 cl.host.1 cl.port.1)) :
    0x27 ∉ cl.nickname.1 ∧ 0x27 ∉ cl.host.1 ∧ 0x27 ∉ cl.port.1 := by
  obtain ⟨-, -, -, -, htexts⟩ := template_texts
  have hnone : ∀ arg ∈ [cl.nickname, cl.host, cl.port], 0x27 ∉ arg.1 := by
    refine notMem_of_tokens rfl h ?_
    rw [htexts]
    simp [tokenQuotes, addClientTokens, Token.quotes, word, literal, comma, leftParen, rightParen]
    omega
  exact ⟨hnone cl.nickname (by simp), hnone cl.host (by simp), hnone cl.port (by simp)⟩

/-! ## When they say it -/

/-- A host within its array is always filled up, to 256 chars. -/
theorem addClient_never (cl : DaoClient) (hhost : cl.host.1.length ≤ 255) :
    ¬ Denotes (addClientRequest cl) (addClientTokens cl.nickname.1 cl.host.1 cl.port.1) := by
  intro hd
  obtain ⟨hn, hh, hp⟩ := quotes_addClient hd.tokens
  have htokens := addClientRequest_tokens hn hh hp
  rw [hd.tokens] at htokens
  have hpad : padded 256 cl.host.1 = cl.host.1 := by
    simp only [addClientTokens, literal, Option.some.injEq, List.cons.injEq, Token.quoted.injEq, true_and,
      and_true] at htokens
    exact htokens.2.1.symm
  have := (padded_eq_iff 256 cl.host.1).mp hpad
  omega

theorem removeClientByNickname_iff (nickname : CString) :
    Denotes (removeClientByNicknameRequest nickname) (removeClientByNicknameTokens nickname.1) ↔
      15 ≤ nickname.1.length ∧ nickname.1.length ≤ 984 ∧ 0x27 ∉ nickname.1 := by
  have hlen : (removeClientByNicknameRequest nickname).length = 39 + max 15 nickname.1.length := by
    obtain ⟨-, htexts, -⟩ := template_texts
    rw [removeClientByNicknameRequest, sprintf_length rfl, htexts]
    rfl
  constructor
  · intro hd
    have hn := quotes_removeClientByNickname hd.tokens
    have htokens := removeClientByNicknameRequest_tokens hn
    rw [hd.tokens] at htokens
    have hpad : padded 15 nickname.1 = nickname.1 := by
      simp only [removeClientByNicknameTokens, literal, Option.some.injEq, List.cons.injEq, Token.quoted.injEq,
        true_and, and_true] at htokens
      exact htokens.symm
    have hwidth := (padded_eq_iff 15 nickname.1).mp hpad
    have hfits := hd.fits
    rw [hlen, bufferLength] at hfits
    exact ⟨hwidth, by omega, hn⟩
  · rintro ⟨hwidth, hfits, hn⟩
    refine ⟨?_, ?_⟩
    · rw [hlen, bufferLength]
      omega
    · rw [removeClientByNicknameRequest_tokens hn, (padded_eq_iff 15 nickname.1).mpr hwidth]

theorem removeClientByAddr_iff (host port : CString) :
    Denotes (removeClientByAddrRequest host port) (removeClientByAddrTokens host.1 port.1) ↔
      256 ≤ host.1.length ∧ 5 ≤ port.1.length ∧ host.1.length + port.1.length ≤ 974 ∧
        0x27 ∉ host.1 ∧ 0x27 ∉ port.1 := by
  have hlen : (removeClientByAddrRequest host port).length = 49 + (max 256 host.1.length + max 5 port.1.length) := by
    obtain ⟨-, -, -, htexts, -⟩ := template_texts
    rw [removeClientByAddrRequest, sprintf_length rfl, htexts]
    rfl
  constructor
  · intro hd
    obtain ⟨hh, hp⟩ := quotes_removeClientByAddr hd.tokens
    have htokens := removeClientByAddrRequest_tokens hh hp
    rw [hd.tokens] at htokens
    have hpad : padded 256 host.1 = host.1 ∧ padded 5 port.1 = port.1 := by
      simp only [removeClientByAddrTokens, literal, Option.some.injEq, List.cons.injEq, Token.quoted.injEq, true_and,
        and_true] at htokens
      exact ⟨htokens.1.symm, htokens.2.symm⟩
    have hwidth := (padded_eq_iff 256 host.1).mp hpad.1
    have hwidth' := (padded_eq_iff 5 port.1).mp hpad.2
    have hfits := hd.fits
    rw [hlen, bufferLength] at hfits
    exact ⟨hwidth, hwidth', by omega, hh, hp⟩
  · rintro ⟨hwidth, hwidth', hfits, hh, hp⟩
    refine ⟨?_, ?_⟩
    · rw [hlen, bufferLength]
      omega
    · rw [removeClientByAddrRequest_tokens hh hp, (padded_eq_iff 256 host.1).mpr hwidth,
        (padded_eq_iff 5 port.1).mpr hwidth']

theorem Denotes.takes {request : List UInt8} {tokens : List Token} (h : Denotes request tokens)
    {given : DaoClient → Prop}
    (hgiven : ∀ row, (∀ c ∈ comparisons tokens, column row c.1 = some c.2) ↔ given row) : Takes request given :=
  ⟨tokens, h.tokens, hgiven⟩

theorem column_nickname (row : DaoClient) : column row (ascii "nickname") = some row.nickname.1 := if_pos rfl

theorem column_host (row : DaoClient) : column row (ascii "host") = some row.host.1 := by
  have hne : ascii "host" ≠ ascii "nickname" := by decide
  rw [column, if_neg hne, if_pos rfl]

theorem column_port (row : DaoClient) : column row (ascii "port") = some row.port.1 := by
  have hne : ascii "port" ≠ ascii "nickname" := by decide
  have hne' : ascii "port" ≠ ascii "host" := by decide
  rw [column, if_neg hne, if_neg hne', if_pos rfl]

theorem takes_nickname (nickname : CString) (row : DaoClient) :
    (∀ c ∈ comparisons (removeClientByNicknameTokens nickname.1), column row c.1 = some c.2) ↔
    row.nickname = nickname := by
  have hcomparisons : comparisons (removeClientByNicknameTokens nickname.1) = [(ascii "nickname", nickname.1)] := rfl
  rw [hcomparisons, List.forall_mem_singleton, column_nickname, Option.some.injEq, Subtype.ext_iff]

theorem takes_addr (host port : CString) (row : DaoClient) :
    (∀ c ∈ comparisons (removeClientByAddrTokens host.1 port.1), column row c.1 = some c.2) ↔
      row.host = host ∧ row.port = port := by
  have hcomparisons : comparisons (removeClientByAddrTokens host.1 port.1) =
      [(ascii "host", host.1), (ascii "port", port.1)] := rfl
  rw [hcomparisons, List.forall_mem_cons, List.forall_mem_singleton, column_host, column_port, Option.some.injEq,
    Option.some.injEq, Subtype.ext_iff, Subtype.ext_iff]

/-- What an `INSERT` says is never what was given; a `DELETE` says it, and takes the rows with what was
given, for strings without quotes that are as long as the widths of the format and fit. -/
theorem requests_say_iff (cl : DaoClient) (hhost : cl.host.1.length ≤ 255) (nickname host port : CString) :
    ¬ Denotes (addClientRequest cl) (addClientTokens cl.nickname.1 cl.host.1 cl.port.1) ∧
    ((Denotes (removeClientByNicknameRequest nickname) (removeClientByNicknameTokens nickname.1) ∧
        Takes (removeClientByNicknameRequest nickname) fun row => row.nickname = nickname) ↔
      15 ≤ nickname.1.length ∧ nickname.1.length ≤ 984 ∧ 0x27 ∉ nickname.1) ∧
    ((Denotes (removeClientByAddrRequest host port) (removeClientByAddrTokens host.1 port.1) ∧
        Takes (removeClientByAddrRequest host port) fun row => row.host = host ∧ row.port = port) ↔
      256 ≤ host.1.length ∧ 5 ≤ port.1.length ∧ host.1.length + port.1.length ≤ 974 ∧
        0x27 ∉ host.1 ∧ 0x27 ∉ port.1) := by
  refine ⟨addClient_never cl hhost, ?_, ?_⟩
  · rw [← removeClientByNickname_iff]
    exact ⟨And.left, fun hd => ⟨hd, hd.takes (takes_nickname nickname)⟩⟩
  · rw [← removeClientByAddr_iff]
    exact ⟨And.left, fun hd => ⟨hd, hd.takes (takes_addr host port)⟩⟩

def shortName : CString := ⟨ascii "bob", by decide⟩
def quotedName : CString := ⟨ascii "the-one-who's-in", by decide⟩

def bob : DaoClient :=
    { id := 0, nickname := shortName, host := ⟨ascii "localhost", by decide⟩, port := ⟨ascii "80", by decide⟩ }

theorem requests_say_bob : ¬ Denotes (addClientRequest bob) (addClientTokens bob.nickname.1 bob.host.1 bob.port.1) :=
  (requests_say_iff bob (by decide) shortName shortName shortName).1

/-- A short name is looked for with spaces in front, and a quote in a name ends the literal. -/
theorem names_not_said :
    tokenize (removeClientByNicknameRequest shortName) =
      some (removeClientByNicknameTokens (List.replicate 12 0x20 ++ shortName.1)) ∧
    tokenize (removeClientByNicknameRequest shortName) ≠ some (removeClientByNicknameTokens shortName.1) ∧
    tokenize (removeClientByNicknameRequest quotedName) = none ∧
    tokenize (addClientRequest bob) ≠ some (addClientTokens bob.nickname.1 bob.host.1 bob.port.1) := by
  decide +kernel

end Chats.Dao
