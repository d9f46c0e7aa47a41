import Rpstir.Data.Fold
import Rpstir.Data.SqlString
import Rpstir.Garbage.Basic
import Rpstir.Sqhl.System

/-!
This module contains the way of a name into a column of `rpki_cert` and into the where clauses that
search for it. A character of a string stands for a byte.
-/

namespace Rpstir.Sqhl

open List Option
namespace Names

open Garbage (escapeChar mysqlEscapeString)

def isXDigit (c : Char) : Bool :=
  c.isDigit || ('a' ≤ c && c ≤ 'f') || ('A' ≤ c && c ≤ 'F')

def quoteValue (input : String) : Except Err (List Char) :=
  if ['^', 'x'] <+: input.toList then
    if (input.toList.drop 2).all isXDigit then
      .ok ('0' :: input.toList.drop 1)
    else
      .error .invalArg
  else
    .ok ('"' :: (mysqlEscapeString input).toList ++ ['"'])

def xdigit (c : Char) : Nat :=
  if c.isDigit then c.toNat - '0'.toNat
  else if 'a' ≤ c then c.toNat - 'a'.toNat + 10
  else c.toNat - 'A'.toNat + 10

def hexChars : List Char → List Char
  | a :: b :: digits => Char.ofNat (16 * xdigit a + xdigit b) :: hexChars digits
  | _ => []

def readValue (text : List Char) : Option (List Char) :=
  if ['0', 'x'] <+: text then
    let digits := text.drop 2
    if digits = [] then
      none
    else if digits.length % 2 = 1 then
      some (hexChars ('0' :: digits))
    else
      some (hexChars digits)
  else
    (SqlString.read '"' (text.drop 1)).bind fun (value, rest) =>
      if rest = [] then some value else none

def fitColumn (strict : Bool) (size : Nat) (value : List Char) : Option (List Char) :=
  if value.length ≤ size then some value
  else if strict then none
  else some (value.take size)

def insertField (strict : Bool) (size : Nat) (field : String) : Except Err String := do
  let quoted ← quoteValue (mysqlEscapeString field)
  let value ← ((readValue quoted).bind (fitColumn strict size)).elim (.error .sql) .ok
  return String.ofList value

def insertFields (strict : Bool) (cf : CertFields) : Except Err CertFields := do
  let filename ← insertField strict 256 cf.filename
  let subject ← insertField strict 512 cf.subject
  let issuer ← insertField strict 512 cf.issuer
  let sig ← insertField strict 520 cf.sig
  let ski ← cf.ski.mapM (insertField strict 128)
  let aki ← cf.aki.mapM (insertField strict 128)
  return { cf with
    filename := filename
    subject := subject
    issuer := issuer
    sig := sig
    ski := ski
    aki := aki }

def addCertInternal (env : Env) (strict : Bool) (w : World) (cf : CertFields)
    : Except Err (CertRow × World) := do
  dupsigscm (w.cert.map CertRow.sig) cf.sig
  let cf ← insertFields strict cf
  match cf.ski with
  | none => .error .sql
  | some ski =>
    if w.hasKey .cert cf.filename cf.dirid then
      .error .sql
    else
      let row := cf.toRow ski (w.nextId .cert)
      .ok (row, { w with
        cert := insertAt (env.place .cert (w.objs .cert) row.toObj) row w.cert })

inductive Column where
  | ski
  | subject
  | aki
  | issuer
  deriving DecidableEq, Repr

def Column.name : Column → String
  | ski => "ski"
  | subject => "subject"
  | aki => "aki"
  | issuer => "issuer"

def Column.get (r : CertRow) : Column → Option String
  | ski => some r.ski
  | subject => some r.subject
  | aki => r.aki
  | issuer => some r.issuer

inductive Test where
  | eq (column : Column) (quote : Char) (text : String)
  | ne (column : Column) (quote : Char) (text : String)
  | flag (flagVal : Flags) (isSet : Bool)
  deriving DecidableEq, Repr

namespace Test

def print : Test → List Char
  | eq column quote text => column.name.toList ++ '=' :: quote :: text.toList ++ [quote]
  | ne column quote text => column.name.toList ++ '<' :: '>' :: quote :: text.toList ++ [quote]
  | flag flagVal isSet =>
    ("((flags%" ++ toString (2 * flagVal.toNat) ++ ")" ++ (if isSet then ">=" else "<")
      ++ toString flagVal.toNat ++ ")").toList

def parse : Test → Option (CertRow → Bool)
  | eq column quote text => (SqlString.literal quote text.toList).map fun value r =>
    (column.get r).any (·.toList = value)
  | ne column quote text => (SqlString.literal quote text.toList).map fun value r =>
    (column.get r).any (·.toList ≠ value)
  | flag flagVal isSet => some fun r => r.flags.test flagVal isSet

end Test

def wherestrSize : Nat := 1024

def wherestr : List Test → List Char
  | [] => []
  | [test] => test.print
  | test :: tests => test.print ++ " and ".toList ++ wherestr tests

/--
The rows that `searchscm` finds. There are none to speak of if the where clause does not fit into its
buffer, in which case the process aborts, or if one of its literals is not what the server reads.
-/
def search (w : World) (tests : List Test) : Option (List CertRow) :=
  if (wherestr tests).length < wherestrSize ∧ tests.all fun test => test.parse.isSome then
    some (w.cert.filter fun r => tests.all fun test => test.parse.any fun passes => passes r)
  else
    none

def findParentCert (w : World) (ski : String) (subject : Option String) : Option (List CertRow) :=
  match subject with
  | some subject => search w
    [.eq .ski '\'' ski, .eq .subject '\'' (mysqlEscapeString subject),
      .flag Flags.validated true, .flag Flags.nochain false]
  | none => search w [.eq .ski '\'' ski, .flag Flags.validated true, .flag Flags.nochain false]

def getCertSigval (w : World) (subj ski : String) : Option (List CertRow) :=
  search w [.eq .ski '"' ski, .eq .subject '"' subj]

def childrenSrch (w : World) (ski subject : String) (doVerify : Bool) : Option (List CertRow) :=
  search w [.eq .aki '"' ski, .ne .ski '"' ski, .eq .issuer '"' (mysqlEscapeString subject),
    .flag Flags.nochain doVerify]

structure Name where
  text : String
  length_le : text.length ≤ 512

structure KeyId where
  text : String
  chars : ∀ c ∈ text.toList, c.isDigit = true ∨ ('A' ≤ c ∧ c ≤ 'F') ∨ c = ':'
  length_le : text.length ≤ 128

def Stored (strict : Bool) (cf : CertFields) (r : CertRow) : Prop :=
  ∃ env w w', addCertInternal env strict w cf = .ok (r, w')

def Finds (found : Option (List CertRow)) (r : CertRow) : Prop :=
  ∃ rows, found = some rows ∧ r ∈ rows

structure RoundTrips (subject : Name) (ski : KeyId) : Prop where
  parent : ∀ strict cf r w, Stored strict cf r → cf.ski = some ski.text → cf.subject = subject.text →
    cf.flags.valid = true → r ∈ w.cert → Finds (findParentCert w ski.text (some subject.text)) r
  sigval : ∀ strict cf r w, Stored strict cf r → cf.ski = some ski.text → cf.subject = subject.text →
    cf.flags.valid = true → r ∈ w.cert → Finds (getCertSigval w subject.text ski.text) r
  children : ∀ strict cf r w doVerify, Stored strict cf r → cf.aki = some ski.text →
    (∃ ski' : KeyId, cf.ski = some ski'.text ∧ ski'.text ≠ ski.text) → cf.issuer = subject.text →
    cf.flags.test Flags.nochain doVerify = true → r ∈ w.cert →
    Finds (childrenSrch w ski.text subject.text doVerify) r

def specials : List Char :=
  [Char.ofNat 0, '\n', '\r', '\\', '\'', '"', Char.ofNat 26]

def Plain (s : String) : Prop :=
  (∀ c ∈ s.toList, c ∉ specials) ∧ ¬['^', 'x'] <+: s.toList

instance (s : String) : Decidable (Plain s) :=
  @instDecidableAnd _ _ (decidableBAll (· ∉ specials) s.toList) inferInstance

def Refused (s : String) : Prop :=
  ['^', 'x'] <+: s.toList ∧ (s.toList.drop 2 = [] ∨ ∃ c ∈ s.toList.drop 2, isXDigit c = false)

section Escape

variable {q : Char} {s : List Char}

theorem escapeChar_of_not_mem {c : Char} (h : c ∉ specials) : escapeChar c = [c] := by
  simp only [specials, mem_cons, not_mem_nil, or_false, not_or] at h
  simp [escapeChar, h]

theorem escapeChar_of_mem {c : Char} (h : c ∈ specials) : ∃ e, escapeChar c = ['\\', e] := by
  simp only [specials, mem_cons, not_mem_nil, or_false] at h
  rcases h with rfl | rfl | rfl | rfl | rfl | rfl | rfl
  all_goals exact ⟨_, rfl⟩

theorem read_escapeChar (hq : q = '"' ∨ q = '\'') (c : Char) (text : List Char)
    : SqlString.read q (escapeChar c ++ text)
        =
      (SqlString.read q text).map fun (value, rest) => (c :: value, rest) := by
  by_cases hc : c ∈ specials
  . simp only [specials, mem_cons, not_mem_nil, or_false] at hc
    rcases hc with rfl | rfl | rfl | rfl | rfl | rfl | rfl
    all_goals exact SqlString.read_backslash _
  rw [escapeChar_of_not_mem hc]
  simp only [specials, mem_cons, not_mem_nil, or_false, not_or] at hc
  apply SqlString.read_char hc.2.2.2.1
  rcases hq with rfl | rfl
  . exact hc.2.2.2.2.2.1
  . exact hc.2.2.2.2.1

theorem read_escape (hq : q = '"' ∨ q = '\'') (s : List Char)
    : SqlString.read q (s.flatMap escapeChar ++ [q]) = some (s, []) := by
  induction s with
  | nil =>
    apply SqlString.read_quote
    rcases hq with rfl | rfl <;> decide
  | cons _ s ih =>
    rw [flatMap_cons, append_assoc, read_escapeChar hq, ih]
    rfl

theorem literal_escape (hq : q = '"' ∨ q = '\'') (s : String)
    : SqlString.literal q (mysqlEscapeString s).toList = some s.toList := by
  rw [SqlString.literal_eq_some_iff, mysqlEscapeString, String.toList_ofList]
  exact read_escape hq s.toList

theorem flatMap_escapeChar (h : ∀ c ∈ s, c ∉ specials) : s.flatMap escapeChar = s := by
  induction s with
  | nil => rfl
  | cons c s ih =>
    rw [forall_mem_cons] at h
    rw [flatMap_cons, escapeChar_of_not_mem h.1, ih h.2]
    rfl

theorem mysqlEscapeString_eq_self {s : String} (h : ∀ c ∈ s.toList, c ∉ specials)
    : mysqlEscapeString s = s := by
  rw [mysqlEscapeString, flatMap_escapeChar h, String.ofList_toList]

theorem literal_of_plain (hq : q = '"' ∨ q = '\'') {s : String} (h : ∀ c ∈ s.toList, c ∉ specials)
    : SqlString.literal q s.toList = some s.toList := by
  have hliteral := literal_escape hq s
  rwa [mysqlEscapeString_eq_self h] at hliteral

end Escape

section Insert

variable {strict : Bool} {size : Nat} {s value : String}

theorem hat_escape_iff {s : List Char}
    : ['^', 'x'] <+: s.flatMap escapeChar ↔ ['^', 'x'] <+: s := by
  have hcons (a : Char) (ha : a ∉ specials) (tail : List Char) (c : Char) (s : List Char)
      : a :: tail <+: (c :: s).flatMap escapeChar ↔ a = c ∧ tail <+: s.flatMap escapeChar := by
    rw [flatMap_cons]
    by_cases hc : c ∈ specials
    . rcases escapeChar_of_mem hc with ⟨_, he⟩
      rw [he, cons_append, cons_prefix_cons]
      constructor
      . rintro ⟨rfl, -⟩
        exact absurd (by decide) ha
      . rintro ⟨rfl, -⟩
        exact absurd hc ha
    . rw [escapeChar_of_not_mem hc, singleton_append, cons_prefix_cons]
  rcases s with _ | ⟨c, _ | ⟨_, s⟩⟩
  . rfl
  . rw [hcons '^' (by decide), cons_prefix_cons, flatMap_nil]
  . rw [hcons '^' (by decide), hcons 'x' (by decide)]
    simp [cons_prefix_cons]

theorem hat_mysqlEscapeString_iff
    : ['^', 'x'] <+: (mysqlEscapeString s).toList ↔ ['^', 'x'] <+: s.toList := by
  rw [mysqlEscapeString, String.toList_ofList, hat_escape_iff]

variable {quoted digits text : List Char}

theorem insertField_eq (h : quoteValue (mysqlEscapeString s) = .ok quoted) {value : List Char}
    (hread : readValue quoted = some value)
    : insertField strict size s
        =
      (fitColumn strict size value).elim (.error .sql) fun value => .ok (String.ofList value) := by
  simp only [insertField, h, hread, bind, Except.bind, bind_some]
  cases fitColumn strict size value with
  | none
  | some => rfl

theorem insertField_of_not_hat (h : ¬['^', 'x'] <+: s.toList)
    : insertField strict size s
        =
      (fitColumn strict size (mysqlEscapeString s).toList).elim (.error .sql) fun value =>
        .ok (String.ofList value) := by
  have hquote : quoteValue (mysqlEscapeString s)
      = .ok ('"' :: (mysqlEscapeString (mysqlEscapeString s)).toList ++ ['"']) := by
    rw [quoteValue, if_neg (mt hat_mysqlEscapeString_iff.mp h)]
  apply insertField_eq hquote
  rw [readValue, if_neg (by simp), cons_append, drop_one, tail_cons]
  rw [← SqlString.literal.eq_1, literal_escape (.inl rfl)]

theorem insertField_of_plain (h : Plain s) (hsize : s.length ≤ size)
    : insertField strict size s = .ok s := by
  rw [insertField_of_not_hat h.2, mysqlEscapeString_eq_self h.1, fitColumn,
    if_pos (by rwa [String.length_toList])]
  simp

theorem all_isXDigit_escape {s : List Char} (h : (s.flatMap escapeChar).all isXDigit = true)
    : s.all isXDigit = true := by
  induction s with
  | nil => rfl
  | cons c s ih =>
    rw [flatMap_cons, all_append, Bool.and_eq_true] at h
    rw [all_cons, ih h.2, Bool.and_true]
    by_cases hc : c ∈ specials
    . rcases escapeChar_of_mem hc with ⟨_, he⟩
      rw [he, all_cons] at h
      exact absurd h.1 (by simp; intro hx; exact absurd hx (by decide))
    . rw [escapeChar_of_not_mem hc] at h
      simpa using h.1

theorem not_mem_specials_of_isXDigit {c : Char} (h : isXDigit c = true) : c ∉ specials := by
  intro hc
  simp only [specials, mem_cons, not_mem_nil, or_false] at hc
  rcases hc with rfl | rfl | rfl | rfl | rfl | rfl | rfl
  all_goals exact absurd h (by decide)

theorem prefix_pair (a b : Char) (text : List Char) : [a, b] <+: a :: b :: text :=
  prefix_append [a, b] text

theorem toList_mysqlEscapeString_hat (h : s.toList = '^' :: 'x' :: digits)
    : (mysqlEscapeString s).toList = '^' :: 'x' :: digits.flatMap escapeChar := by
  rw [mysqlEscapeString, String.toList_ofList, h]
  rfl

theorem insertField_of_refused (h : Refused s) : insertField strict size s ≠ .ok value := by
  rcases h with ⟨⟨digits, hs⟩, hrest⟩
  have hescape := toList_mysqlEscapeString_hat hs.symm
  have hhat : ['^', 'x'] <+: (mysqlEscapeString s).toList := by
    rw [hescape]
    exact prefix_pair '^' 'x' _
  rw [← hs] at hrest
  rcases hrest with hnil | ⟨c, hc, hdigit⟩
  . have hdigits : digits = [] := hnil
    have hquote : quoteValue (mysqlEscapeString s) = .ok ['0', 'x'] := by
      rw [quoteValue, if_pos hhat, hescape, hdigits]
      rfl
    simp [insertField, hquote, bind, Except.bind, readValue]
  have hquote : quoteValue (mysqlEscapeString s) = .error .invalArg := by
    rw [quoteValue, if_pos hhat, if_neg]
    intro hall
    rw [hescape] at hall
    have := List.all_eq_true.mp (all_isXDigit_escape hall) c hc
    rw [hdigit] at this
    contradiction
  simp [insertField, hquote, bind, Except.bind]

theorem length_hexChars (digits : List Char) : (hexChars digits).length = digits.length / 2 := by
  fun_induction hexChars digits with
  | case1 a b digits ih =>
    simp only [length_cons, ih]
    omega
  | case2 digits h =>
    rcases digits with _ | ⟨a, _ | ⟨b, digits⟩⟩
    . rfl
    . simp
    . exact absurd rfl (h a b digits)

theorem insertField_of_hex {digits : List Char} (h : s.toList = '^' :: 'x' :: digits)
    (hne : digits ≠ []) (hall : digits.all isXDigit = true) (hsize : s.length ≤ size)
    : ∃ value, insertField strict size s = .ok value ∧ value.length < s.length := by
  have hplain : digits.flatMap escapeChar = digits :=
    flatMap_escapeChar fun c hc => not_mem_specials_of_isXDigit (List.all_eq_true.mp hall c hc)
  have hescape : (mysqlEscapeString s).toList = '^' :: 'x' :: digits := by
    rw [toList_mysqlEscapeString_hat h, hplain]
  have hlength : s.length = digits.length + 2 := by
    rw [← String.length_toList, h]
    rfl
  have hquote : quoteValue (mysqlEscapeString s) = .ok ('0' :: 'x' :: digits) := by
    rw [quoteValue, hescape, if_pos (prefix_pair '^' 'x' digits)]
    simp [hall]
  have hread : ∃ chars, readValue ('0' :: 'x' :: digits) = some chars ∧
      chars.length < digits.length + 2 := by
    rw [readValue, if_pos (prefix_pair '0' 'x' digits)]
    simp only [drop_succ_cons, drop_zero, hne, if_false]
    split
    . refine ⟨_, rfl, ?_⟩
      rw [length_hexChars, length_cons]
      omega
    . refine ⟨_, rfl, ?_⟩
      rw [length_hexChars]
      omega
  rcases hread with ⟨chars, hread, _⟩
  refine ⟨String.ofList chars, ?_, ?_⟩
  . rw [insertField_eq hquote hread, fitColumn, if_pos (by omega)]
    rfl
  . rw [String.length_ofList]
    omega

theorem insertField_of_not_plain (h : ¬Plain s) (hrefused : ¬Refused s) (hsize : s.length ≤ size)
    : ∃ value, insertField false size s = .ok value ∧
        (value = s → ((s.toList.flatMap escapeChar).take size = s.toList ∧ ∃ c ∈ s.toList, c ∈ specials)) := by
  by_cases hhat : ['^', 'x'] <+: s.toList
  . rcases hhat with ⟨digits, hs⟩
    have hdigits : s.toList = '^' :: 'x' :: digits := hs.symm
    rw [Refused, hdigits, not_and_or, not_or] at hrefused
    rcases hrefused with hhat | ⟨hne, hall⟩
    . exact absurd (prefix_pair '^' 'x' digits) hhat
    have hall : digits.all isXDigit = true := by
      rw [List.all_eq_true]
      intro c hc
      by_contra hdigit
      exact hall ⟨c, hc, by simpa using hdigit⟩
    rcases @insertField_of_hex false size s digits hdigits hne hall hsize with ⟨value, hok, hlt⟩
    refine ⟨value, hok, ?_⟩
    intro heq
    rw [heq] at hlt
    exact absurd hlt (Nat.lt_irrefl _)
  have hspecial : ∃ c ∈ s.toList, c ∈ specials := by
    rw [Plain, not_and_or] at h
    simpa [hhat] using h
  rw [insertField_of_not_hat hhat, fitColumn]
  split
  . next hfits =>
    refine ⟨mysqlEscapeString s, by simp, ?_⟩
    intro heq
    refine ⟨?_, hspecial⟩
    rw [heq] at hfits
    have htoList : (mysqlEscapeString s).toList = s.toList := by rw [heq]
    rw [mysqlEscapeString, String.toList_ofList] at htoList
    rw [htoList, take_of_length_le hfits]
  refine ⟨_, rfl, ?_⟩
  intro heq
  refine ⟨?_, hspecial⟩
  have htoList := congrArg String.toList heq
  rwa [String.toList_ofList, mysqlEscapeString, String.toList_ofList] at htoList

theorem eq_replicate_of_take {s : List Char} {n k : Nat}
    (h : (replicate (k + 1) '\\' ++ s.flatMap escapeChar).take n = s)
    : s = replicate s.length '\\' := by
  induction s generalizing n k with
  | nil => rfl
  | cons _ s ih =>
    cases n with
    | zero => cases h
    | succ =>
      rw [replicate_succ, cons_append, take_succ_cons, List.cons.injEq] at h
      rcases h with ⟨rfl, h⟩
      have hescape : replicate k '\\' ++ ('\\' :: s).flatMap escapeChar
          = replicate (k + 2) '\\' ++ s.flatMap escapeChar := by
        rw [flatMap_cons, ← append_assoc, show escapeChar '\\' = replicate 2 '\\' from rfl,
          replicate_append_replicate]
      rw [hescape] at h
      rw [length_cons, replicate_succ, ← ih h]

theorem eq_append_replicate_of_take {s : List Char} {n : Nat}
    (h : (s.flatMap escapeChar).take n = s) (hspecial : ∃ c ∈ s, c ∈ specials)
    : ∃ text k, s = text ++ replicate (k + 1) '\\' ∧ ∀ c ∈ text, c ∉ specials := by
  induction s generalizing n with
  | nil => simp at hspecial
  | cons c s ih =>
    cases n with
    | zero => cases h
    | succ n =>
      rw [flatMap_cons] at h
      by_cases hc : c ∈ specials
      . rcases escapeChar_of_mem hc with ⟨_, he⟩
        rw [he, cons_append, take_succ_cons, List.cons.injEq] at h
        rcases h with ⟨rfl, h⟩
        cases he
        have hs := @eq_replicate_of_take s n 0 h
        exact ⟨[], s.length, by rw [replicate_succ, ← hs]; rfl, by simp⟩
      rw [escapeChar_of_not_mem hc, cons_append, take_succ_cons, List.cons.injEq] at h
      have hspecial' : ∃ c ∈ s, c ∈ specials := by
        simpa [hc] using hspecial
      rcases ih h.2 hspecial' with ⟨text, k, rfl, hplain⟩
      refine ⟨c :: text, k, rfl, ?_⟩
      rw [forall_mem_cons]
      exact ⟨hc, hplain⟩

theorem read_replicate_ne {q : Char} (k : Nat)
    : SqlString.read q (replicate (k + 1) '\\' ++ [q])
        ≠
      some (replicate (k + 1) '\\', []) := by
  intro h
  cases k with
  | zero =>
    have hread : SqlString.read q ['\\', q] = none := SqlString.read_backslash q
    exact absurd (hread.symm.trans h) (some_ne_none _).symm
  | succ k =>
    rw [replicate_succ, replicate_succ, cons_append, cons_append,
      SqlString.read_backslash] at h
    obtain ⟨⟨value, _⟩, hread, heq⟩ := map_eq_some_iff.mp h
    have hlen := SqlString.length_of_read hread
    have hvalue : (SqlString.unescape '\\' ++ value).length = k + 2 := by
      rw [(Prod.mk.inj heq).1]
      simp
    rw [length_append, show (SqlString.unescape '\\').length = 1 from rfl] at hvalue
    simp only [length_append, length_replicate, length_singleton] at hlen
    omega

theorem literal_append_replicate_ne {q : Char} (hq : q = '"' ∨ q = '\'')
    (h : ∀ c ∈ text, c ∉ specials) (k : Nat)
    : SqlString.literal q (text ++ replicate (k + 1) '\\')
        ≠
      some (text ++ replicate (k + 1) '\\') := by
  rw [ne_eq, SqlString.literal_eq_some_iff]
  induction text with
  | nil => exact read_replicate_ne k
  | cons c text ih =>
    rw [forall_mem_cons] at h
    have hread := read_escapeChar hq c (text ++ replicate (k + 1) '\\' ++ [q])
    rw [escapeChar_of_not_mem h.1, singleton_append] at hread
    rw [cons_append, cons_append, hread]
    intro heq
    obtain ⟨⟨_, _⟩, hread', heq⟩ := map_eq_some_iff.mp heq
    cases heq
    exact ih h.2 hread'

end Insert

section Stored

variable {env : Env} {strict : Bool} {w w' : World} {cf cf' : CertFields} {r : CertRow}

theorem mapM_insertField_eq_ok {size : Nat} {field stored : Option String}
    : field.mapM (insertField strict size) = .ok stored ↔
        (field = none ∧ stored = none) ∨
        ∃ s s', field = some s ∧ stored = some s' ∧ insertField strict size s = .ok s' := by
  cases field with
  | none => simp [pure, Except.pure, eq_comm]
  | some s =>
    cases hinsert : insertField strict size s with
    | error => simp [hinsert, Functor.map, Except.map]
    | ok => simp [hinsert, Functor.map, Except.map, eq_comm]

structure IsStored (strict : Bool) (cf : CertFields) (r : CertRow) : Prop where
  subject : insertField strict 512 cf.subject = .ok r.subject
  issuer : insertField strict 512 cf.issuer = .ok r.issuer
  ski : ∃ s, cf.ski = some s ∧ insertField strict 128 s = .ok r.ski
  aki : cf.aki.mapM (insertField strict 128) = .ok r.aki
  flags : r.flags = cf.flags

theorem isStored_of_stored (h : Stored strict cf r) : IsStored strict cf r := by
  rcases h with ⟨_, _, _, h⟩
  simp only [addCertInternal, insertFields, Except.bind_eq_ok_iff, pure, Except.pure, Except.ok.injEq] at h
  rcases h with ⟨-, -, _, ⟨_, _, _, hsubject, _, hissuer, _, _, ski, hski,
    aki, haki, rfl⟩, h⟩
  cases ski with
  | none => cases h
  | some =>
    simp only at h
    split at h
    . cases h
    cases h
    rcases mapM_insertField_eq_ok.mp hski with ⟨-, hnone⟩ | ⟨s, _, hs, hs', hinsert⟩
    . cases hnone
    . cases hs'
      exact ⟨hsubject, hissuer, ⟨s, hs, hinsert⟩, haki, rfl⟩

end Stored

section Search

variable {w : World} {r : CertRow} {tests : List Test}

theorem finds_search_iff
    : Finds (search w tests) r ↔ (wherestr tests).length < wherestrSize ∧ r ∈ w.cert ∧
        ∀ test ∈ tests, test.parse.any (fun passes => passes r) = true := by
  unfold search Finds
  constructor
  . rintro ⟨_, hsearch, hr⟩
    split at hsearch
    . next h =>
      cases hsearch
      simpa [h.1] using hr
    . cases hsearch
  rintro ⟨hlength, hr, htests⟩
  refine ⟨_, if_pos ⟨hlength, ?_⟩, by simpa [hr] using htests⟩
  rw [List.all_eq_true]
  intro test htest
  exact isSome_of_any (htests test htest)

variable {text subject ski : String} {column : Column}

theorem any_parse_eq {q : Char}
    : (Test.eq column q text).parse.any (fun passes => passes r) = true ↔
        ∃ s, column.get r = some s ∧ SqlString.literal q text.toList = some s.toList := by
  simp only [Test.parse, Option.any_map]
  cases SqlString.literal q text.toList with
  | none => simp
  | some =>
    cases column.get r with
    | none => simp
    | some => simp [eq_comm]

theorem any_parse_ne {q : Char} {value : List Char}
    (h : SqlString.literal q text.toList = some value)
    : (Test.ne column q text).parse.any (fun passes => passes r) = true ↔
        ∃ s, column.get r = some s ∧ s.toList ≠ value := by
  simp only [Test.parse, h, map_some, any_some]
  cases column.get r with
  | none
  | some => simp

theorem plain_keyId (ski : KeyId) : Plain ski.text := by
  constructor
  . intro c hc hspecial
    simp only [specials, mem_cons, not_mem_nil, or_false] at hspecial
    have hchar := ski.chars c hc
    rcases hspecial with rfl | rfl | rfl | rfl | rfl | rfl | rfl
    all_goals exact absurd hchar (by decide)
  . rintro ⟨_, hdigits⟩
    have hhat := ski.chars '^' (by rw [← hdigits]; exact mem_cons_self)
    exact absurd hhat (by decide)

theorem literal_keyId {q : Char} (hq : q = '"' ∨ q = '\'') (ski : KeyId)
    : SqlString.literal q ski.text.toList = some ski.text.toList :=
  literal_of_plain hq (plain_keyId ski).1

theorem length_wherestr_parent (hski : ski.length ≤ 128) (hsubject : subject.length ≤ 512)
    : (wherestr [.eq .ski '\'' ski, .eq .subject '\'' subject, .flag Flags.validated true,
        .flag Flags.nochain false]).length < wherestrSize := by
  have hvalidated : (Test.print (.flag Flags.validated true)).length = 14 := by decide
  have hnochain : (Test.print (.flag Flags.nochain false)).length = 14 := by decide
  simp only [wherestr, length_append, hvalidated, hnochain]
  simp [Test.print, Column.name, wherestrSize]
  rw [String.length_toList, String.length_toList]
  omega

theorem findParentCert_iff (ski : KeyId) (subject : String)
    : Finds (findParentCert w ski.text (some subject)) r ↔
        (wherestr [.eq .ski '\'' ski.text, .eq .subject '\'' (mysqlEscapeString subject),
          .flag Flags.validated true, .flag Flags.nochain false]).length < wherestrSize ∧
        r ∈ w.cert ∧ isParentRow (some ski.text) (some subject) r = true := by
  simp only [findParentCert, finds_search_iff, forall_mem_cons, any_parse_eq,
    literal_keyId (.inr rfl), literal_escape (.inr rfl), Column.get, some.injEq,
    String.toList_inj, exists_eq_left']
  simp [Test.parse, isParentRow, Flags.valid, and_assoc, @eq_comm _ r.ski]

theorem length_wherestr_sigval (hski : ski.length ≤ 128) (hsubject : subject.length ≤ 512)
    : (wherestr [.eq .ski '"' ski, .eq .subject '"' subject]).length < wherestrSize := by
  simp [wherestr, Test.print, Column.name, wherestrSize]
  rw [String.length_toList, String.length_toList]
  omega

theorem getCertSigval_iff (ski : KeyId) (subject : String)
    : Finds (getCertSigval w subject ski.text) r ↔
        (wherestr [.eq .ski '"' ski.text, .eq .subject '"' subject]).length < wherestrSize ∧
        r ∈ w.cert ∧ r.ski = ski.text ∧
        SqlString.literal '"' subject.toList = some r.subject.toList := by
  simp only [getCertSigval, finds_search_iff, forall_mem_cons, any_parse_eq,
    literal_keyId (.inl rfl), Column.get, some.injEq, String.toList_inj, exists_eq_left']
  simp [@eq_comm _ r.ski]

theorem literal_of_sqlPlain (h : sqlPlain text = true)
    : SqlString.literal '"' text.toList = some text.toList := by
  rw [sqlPlain, List.all_eq_true] at h
  apply SqlString.literal_eq_self (by decide)
  intro c hc
  have hplain := h c hc
  rw [Bool.and_eq_true, decide_eq_true_iff, decide_eq_true_iff] at hplain
  exact hplain.symm

/--
The model of `get_cert_sigval` that compares the names is the one that prints and reads the where clause,
for names that are plain and fit into it.
-/
theorem sqhl_getCertSigval_eq (env : Env) (hsubject : sqlPlain subject = true) (hski : sqlPlain ski = true)
    (hfits : (wherestr [.eq .ski '"' ski, .eq .subject '"' subject]).length < wherestrSize)
    : ∃ rows, getCertSigval w subject ski = some rows ∧
        Sqhl.getCertSigval env w subject ski = (rows.getLast?.map CertRow.sigval).getD .unknown := by
  have hsome (column : Column) {text : String} (h : sqlPlain text = true)
      : (Test.eq column '"' text).parse.isSome = true := by
    rw [Test.parse, literal_of_sqlPlain h]
    rfl
  refine ⟨_, if_pos ⟨hfits, by simp only [all_cons, all_nil, hsome _ hski, hsome _ hsubject]; rfl⟩, ?_⟩
  have hrows : (fun r => [Test.eq .ski '"' ski, .eq .subject '"' subject].all fun test =>
      test.parse.any fun passes => passes r) = fun r => r.hasKey ski subject := by
    funext r
    simp [Test.parse, literal_of_sqlPlain hski, literal_of_sqlPlain hsubject, Column.get, CertRow.hasKey,
      String.toList_inj]
  rw [hrows, Sqhl.getCertSigval, hsubject, hski, Bool.and_self, if_pos rfl]
  cases (w.cert.filter fun r => r.hasKey ski subject).getLast? <;> rfl

theorem length_wherestr_children (hski : ski.length ≤ 128) (hsubject : subject.length ≤ 512)
    (doVerify : Bool)
    : (wherestr [.eq .aki '"' ski, .ne .ski '"' ski, .eq .issuer '"' subject,
        .flag Flags.nochain doVerify]).length < wherestrSize := by
  have hnochain : (Test.print (.flag Flags.nochain doVerify)).length ≤ 15 := by
    cases doVerify <;> decide
  simp only [wherestr, length_append]
  simp [Test.print, Column.name, wherestrSize] at hnochain ⊢
  rw [String.length_toList, String.length_toList]
  omega

theorem childrenSrch_iff (ski : KeyId) (subject : String) (doVerify : Bool)
    : Finds (childrenSrch w ski.text subject doVerify) r ↔
        (wherestr [.eq .aki '"' ski.text, .ne .ski '"' ski.text,
          .eq .issuer '"' (mysqlEscapeString subject), .flag Flags.nochain doVerify]).length
            < wherestrSize ∧
        r ∈ w.cert ∧ isChildRow ski.text subject doVerify r = true := by
  simp only [childrenSrch, finds_search_iff, forall_mem_cons, any_parse_eq,
    any_parse_ne (literal_keyId (.inl rfl) ski), literal_keyId (.inl rfl), literal_escape (.inl rfl),
    Column.get, some.injEq, String.toList_inj, exists_eq_left', ne_eq]
  simp [Test.parse, isChildRow, and_assoc, @eq_comm _ r.issuer, @eq_comm _ _ ski.text]

end Search

section RoundTrip

variable {strict : Bool} {cf : CertFields} {r : CertRow} {subject : Name} {ski : KeyId}

theorem eq_of_insertField_plain {size : Nat} {s value : String} (hplain : Plain s)
    (hsize : s.length ≤ size) (h : insertField strict size s = .ok value) : value = s := by
  rw [insertField_of_plain hplain hsize] at h
  cases h
  rfl

theorem IsStored.ski_eq (h : IsStored strict cf r) (hski : cf.ski = some ski.text)
    : r.ski = ski.text := by
  rcases h.ski with ⟨_, hs, hinsert⟩
  rw [hski] at hs
  cases hs
  exact eq_of_insertField_plain (plain_keyId ski) ski.length_le hinsert

theorem IsStored.aki_eq (h : IsStored strict cf r) (haki : cf.aki = some ski.text)
    : r.aki = some ski.text := by
  have hinsert := h.aki
  rw [mapM_insertField_eq_ok, haki] at hinsert
  rcases hinsert with ⟨hnone, -⟩ | ⟨_, _, hs, hs', hinsert⟩
  . cases hnone
  . cases hs
    rw [hs', eq_of_insertField_plain (plain_keyId ski) ski.length_le hinsert]

theorem roundTrips_of_plain (h : Plain subject.text) (ski : KeyId) : RoundTrips subject ski := by
  have hescape : mysqlEscapeString subject.text = subject.text := mysqlEscapeString_eq_self h.1
  have hname {strict : Bool} {field value : String} (hfield : field = subject.text)
      (hinsert : insertField strict 512 field = .ok value) : value = subject.text :=
    eq_of_insertField_plain h subject.length_le (hfield ▸ hinsert)
  constructor
  . intro strict cf r w hstored hski hsubject hvalid hr
    have hrow := isStored_of_stored hstored
    rw [findParentCert_iff, hescape]
    refine ⟨length_wherestr_parent ski.length_le subject.length_le, hr, ?_⟩
    simp [isParentRow, hrow.ski_eq hski, hname hsubject hrow.subject, hrow.flags, hvalid]
  . intro strict cf r w hstored hski hsubject hvalid hr
    have hrow := isStored_of_stored hstored
    rw [getCertSigval_iff]
    refine ⟨length_wherestr_sigval ski.length_le subject.length_le, hr, hrow.ski_eq hski, ?_⟩
    rw [hname hsubject hrow.subject]
    exact literal_of_plain (.inl rfl) h.1
  rintro strict cf r w doVerify hstored haki ⟨_, hski', hne⟩ hissuer hflags hr
  have hrow := isStored_of_stored hstored
  rw [childrenSrch_iff, hescape]
  refine ⟨length_wherestr_children ski.length_le subject.length_le doVerify, hr, ?_⟩
  simp [isChildRow, hrow.aki_eq haki, hrow.ski_eq hski', hne, hname hissuer hrow.issuer, hrow.flags, hflags]

theorem roundTrips_of_refused (h : Refused subject.text) (ski : KeyId) : RoundTrips subject ski := by
  constructor
  iterate 2
    . intro strict cf r w hstored _ hsubject
      have hinsert := (isStored_of_stored hstored).subject
      rw [hsubject] at hinsert
      exact absurd hinsert (insertField_of_refused h)
  . intro strict cf r w _ hstored _ _ hissuer
    have hinsert := (isStored_of_stored hstored).issuer
    rw [hissuer] at hinsert
    exact absurd hinsert (insertField_of_refused h)

def sampleFields (subject ski : String) : CertFields where
  filename := "c.cer"
  subject := subject
  issuer := "/CN=issuer"
  sn := []
  valfrom := 0
  valto := 0
  sig := "00"
  ski := some ski
  aki := none
  flags := Flags.validated
  dirid := 1

def sampleWorld (cert : List CertRow) : World :=
  { World.start "" (fun _ => none) 0 false with cert := cert }

theorem addCertInternal_sample {s value : String} (h : insertField strict 512 s = .ok value)
    (ski : KeyId)
    : addCertInternal Env.plain strict (sampleWorld []) (sampleFields s ski.text)
        =
      .ok ((sampleFields value ski.text).toRow ski.text 1,
        sampleWorld [(sampleFields value ski.text).toRow ski.text 1]) := by
  have hfilename : insertField strict 256 "c.cer" = .ok "c.cer" :=
    insertField_of_plain (by decide) (by decide)
  have hissuer : insertField strict 512 "/CN=issuer" = .ok "/CN=issuer" :=
    insertField_of_plain (by decide) (by decide)
  have hsig : insertField strict 520 "00" = .ok "00" :=
    insertField_of_plain (by decide) (by decide)
  have hski : insertField strict 128 ski.text = .ok ski.text :=
    insertField_of_plain (plain_keyId ski) ski.length_le
  simp only [addCertInternal, insertFields, sampleFields, h, hfilename, hissuer, hsig, hski,
    mapM_some, mapM_none, bind, Except.bind, pure, Except.pure, Functor.map, Except.map]
  rfl

theorem not_roundTrips (h : ¬Plain subject.text) (hrefused : ¬Refused subject.text)
    : ¬RoundTrips subject ski := by
  intro hround
  rcases insertField_of_not_plain h hrefused subject.length_le with ⟨value, hinsert, hcut⟩
  let r := (sampleFields value ski.text).toRow ski.text 1
  have hstored : Stored false (sampleFields subject.text ski.text) r :=
    ⟨_, _, _, addCertInternal_sample hinsert ski⟩
  have hvalue : r.subject = value := rfl
  have hr : r ∈ (sampleWorld [r]).cert := mem_singleton_self r
  have hparent := hround.parent _ _ r _ hstored rfl rfl rfl hr
  have hsubject : r.subject = subject.text := by
    have hrow := ((findParentCert_iff ski subject.text).mp hparent).2.2
    simp only [isParentRow, Bool.and_eq_true] at hrow
    simpa [eq_comm] using hrow.1.2
  have hsigval := hround.sigval _ _ r _ hstored rfl rfl rfl hr
  rcases (getCertSigval_iff ski subject.text).mp hsigval with ⟨-, -, -, hliteral⟩
  rw [hsubject] at hliteral hvalue
  rcases hcut hvalue.symm with ⟨htake, hspecial⟩
  rcases eq_append_replicate_of_take htake hspecial with ⟨text, k, heq, htext⟩
  rw [heq] at hliteral
  exact literal_append_replicate_ne (.inl rfl) htext k hliteral

end RoundTrip

/--
The lookups find what was stored exactly if the name is plain, or so that nothing can be stored with it.
-/
theorem name_storage_round_trip_iff (subject : Name) (ski : KeyId)
    : RoundTrips subject ski ↔ Plain subject.text ∨ Refused subject.text := by
  constructor
  . intro hround
    by_contra hnot
    rw [not_or] at hnot
    exact not_roundTrips hnot.1 hnot.2 hround
  . intro h
    rcases h with hplain | hrefused
    . exact roundTrips_of_plain hplain ski
    . exact roundTrips_of_refused hrefused ski

def sampleKeyId : KeyId where
  text := "AB"
  chars := by
    intro c hc
    have hmem : c ∈ ['A', 'B'] := hc
    rcases mem_cons.mp hmem with rfl | hmem
    . decide
    . rw [mem_singleton.mp hmem]
      decide
  length_le := by decide

theorem name_with_quote_not_found
    : ∃ r w', addCertInternal Env.plain true (sampleWorld [])
          (sampleFields "/CN=O'Brien" sampleKeyId.text) = .ok (r, w') ∧
        r.flags.valid = true ∧ r.subject = "/CN=O\\'Brien" ∧ w'.cert = [r] ∧
        findParentCert w' sampleKeyId.text (some "/CN=O'Brien") = some [] ∧
        getCertSigval w' "/CN=O'Brien" sampleKeyId.text = some [] := by
  have hinsert : insertField true 512 "/CN=O'Brien" = .ok "/CN=O\\'Brien" := by
    rw [insertField_of_not_hat (by decide)]
    rfl
  refine ⟨_, _, addCertInternal_sample hinsert sampleKeyId, rfl, rfl, rfl, ?_, ?_⟩
  . decide +kernel
  . decide +kernel

end Names
end Rpstir.Sqhl
