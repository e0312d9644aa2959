import ServingSweep.Text.Digit

/-!
# Text for terminals

Characters that could steer a terminal are spelled out where a text is shown, in
ASCII as `\x1b`, beyond it as `\u` with the code in braces. Line breaks, tabs and all
other characters stand for themselves. `not_steers_of_mem_inert` shows that no
steering character is left.
-/

namespace ServingSweep.Text

/-- Bell, backspace, form feed, escape, delete, and the controls from 80 to 9f. -/
def steers (c : Char) : Bool :=
  c ∈ ['\x07', '\x08', '\x0c', '\x1b', '\x7f'] || decide (0x80 ≤ c.toNat ∧ c.toNat < 0xA0)

def shown (c : Char) : List Char :=
  if !steers c then [c]
  else if c.toNat < 0x80 then '\\' :: 'x' :: hexDigits 2 c.toNat
  else '\\' :: 'u' :: '\x7b' :: hexDigits 2 c.toNat ++ ['\x7d']

def inert (s : String) : String := String.ofList (s.toList.flatMap shown)

theorem shown_of_not_steers {c : Char} (h : steers c = false) : shown c = [c] := by
  simp [shown, h]

theorem not_steers_of_mem_hexDigits {c : Char} :
    ∀ {k n : Nat}, c ∈ hexDigits k n → steers c = false
  | 0, _, h => by simp [hexDigits] at h
  | k + 1, n, h => by
    rcases List.mem_append.1 (hexDigits.eq_2 .. ▸ h) with h | h
    · exact not_steers_of_mem_hexDigits h
    · have digit : ∀ d < 16, steers (Nat.digitChar d) = false := by decide
      exact List.mem_singleton.1 h ▸ digit _ (Nat.mod_lt _ (by decide))

theorem not_steers_of_mem_shown {c d : Char} (h : d ∈ shown c) : steers d = false := by
  cases still : steers c with
  | false =>
    rw [shown_of_not_steers still, List.mem_singleton] at h
    exact h ▸ still
  | true =>
    simp only [shown, still, Bool.not_true, Bool.false_eq_true, if_false] at h
    split at h
    · rcases List.mem_cons.1 h with rfl | h
      · decide
      rcases List.mem_cons.1 h with rfl | h
      · decide
      exact not_steers_of_mem_hexDigits h
    · rcases List.mem_append.1 h with h | h
      · rcases List.mem_cons.1 h with rfl | h
        · decide
        rcases List.mem_cons.1 h with rfl | h
        · decide
        rcases List.mem_cons.1 h with rfl | h
        · decide
        exact not_steers_of_mem_hexDigits h
      · exact List.mem_singleton.1 h ▸ by decide

theorem not_steers_of_mem_inert {s : String} {c : Char} (h : c ∈ (inert s).toList) :
    steers c = false := by
  obtain ⟨_, _, h⟩ := List.mem_flatMap.1 (String.toList_ofList ▸ h)
  exact not_steers_of_mem_shown h

end ServingSweep.Text
