import ServingSweep.Json.Tree
import ServingSweep.Proofs.Text.Digit

/-!
A text in quotes reads back as itself. Each character is written as one part: itself, or an escape
of it, or the code unit of a control.
-/

namespace ServingSweep.Json
open Text
variable {c : Char} {cs rest : List Char}

namespace Token

def Piece.Means : Piece → Char → Prop
  | .char d, c => d = c
  | .unit n, c => n = c.toNat ∧ n < 0x20

theorem join?_cons {p : Piece} (means : p.Means c) (ps : List Piece) :
    join? (p :: ps) = (join? ps).map (c :: ·) := by
  cases p with
  | char d =>
    cases means
    rfl
  | unit n =>
    obtain ⟨rfl, control⟩ := means
    have leading : isLeading c.toNat = false := decide_eq_false (by omega)
    have trailing : isTrailing c.toNat = false := decide_eq_false (by omega)
    rcases ps with _ | ⟨_ | _, ps⟩ <;>
      simp only [join?, leading, trailing, Char.ofNat_toNat, Bool.or_false, Bool.false_eq_true,
        if_false]

theorem pieces?_hexDigits {n : Nat} (unit : n < 0x10000) (rest : List Char) :
    pieces? ('\\' :: 'u' :: hexDigits 4 n ++ rest) = (pieces? rest).map (before (.unit n)) := by
  have value : unit? (Nat.digitChar (n / 16 / 16 / 16 % 16)) (Nat.digitChar (n / 16 / 16 % 16))
      (Nat.digitChar (n / 16 % 16)) (Nat.digitChar (n % 16)) = some n := by
    have digit (k : Nat) : hexDigit? (Nat.digitChar (k % 16)) = some (k % 16) :=
      hexDigit?_digitChar (Nat.mod_lt k (by decide))
    simp only [unit?, digit, Option.bind_eq_bind, Option.bind_some]
    congr 1
    omega
  simp only [hexDigits, List.nil_append, List.cons_append, pieces?, value]

theorem pieces?_plain (quote : c ≠ '"') (backslash : c ≠ '\\') (shown : ¬c.toNat < 0x20)
    (rest : List Char) : pieces? (c :: rest) = (pieces? rest).map (before (.char c)) := by
  rw [pieces?.eq_def]
  split
  · next same => cases same
  · next same => injection same with same; exact absurd same quote
  · next same => injection same with same; exact absurd same backslash
  · next same => injection same with same; exact absurd same backslash
  · next same =>
    injection same with head tail
    subst head tail
    exact if_neg (fun either => either.elim backslash shown)

def named : List Char := ['"', '\\', '\x08', '\t', '\n', '\x0c', '\r']

theorem pieces?_named (member : c ∈ named) (rest : List Char) :
    pieces? (writeChar c ++ rest) = (pieces? rest).map (before (.char c)) := by
  simp only [named, List.mem_cons, List.not_mem_nil, or_false] at member
  rcases member with rfl | rfl | rfl | rfl | rfl | rfl | rfl <;> rfl

/-- Every character is written as one part, which stands for it. -/
theorem pieces?_writeChar (c : Char) : ∃ p : Piece, p.Means c ∧
    ∀ rest, pieces? (writeChar c ++ rest) = (pieces? rest).map (before p) := by
  by_cases member : c ∈ named
  · exact ⟨.char c, rfl, pieces?_named member⟩
  · simp only [named, List.mem_cons, List.not_mem_nil, or_false, not_or] at member
    obtain ⟨quote, backslash, backspace, tab, newline, feed, carriage⟩ := member
    simp only [writeChar, quote, backslash, backspace, tab, newline, feed, carriage, if_false]
    split
    · next control =>
      exact ⟨.unit c.toNat, ⟨rfl, control⟩, pieces?_hexDigits (Nat.lt_trans control (by decide))⟩
    · next shown => exact ⟨.char c, rfl, pieces?_plain quote backslash shown⟩

theorem pieces?_flatMap (cs rest : List Char) : ∃ ps, join? ps = some cs ∧
    pieces? (cs.flatMap writeChar ++ '"' :: rest) = some (ps, rest) := by
  induction cs with
  | nil => exact ⟨[], rfl, rfl⟩
  | cons c cs ih =>
    obtain ⟨ps, joined, read⟩ := ih
    obtain ⟨p, means, step⟩ := pieces?_writeChar c
    refine ⟨p :: ps, ?_, ?_⟩
    · rw [join?_cons means, joined]
      rfl
    · rw [List.flatMap_cons, List.append_assoc, step, read]
      rfl

theorem quoted?_flatMap (s : String) (rest : List Char) :
    quoted? (s.toList.flatMap writeChar ++ '"' :: rest) = some (some s, rest) := by
  obtain ⟨ps, joined, read⟩ := pieces?_flatMap s.toList rest
  rw [quoted?, read]
  simp only [Option.map_some, joined, String.ofList_toList]

end Token

theorem first?_quoted (s : String) (rest : List Char) :
    Token.first? (quoted s ++ rest) = some (.text (some s), rest) := by
  have read := Token.quoted?_flatMap s rest
  rw [quoted, List.append_assoc, List.cons_append]
  change (Token.quoted? _).map _ = _
  rw [show s.toList.flatMap writeChar ++ (['"'] ++ rest) =
    s.toList.flatMap writeChar ++ '"' :: rest from rfl, read]
  rfl

end ServingSweep.Json
