import ServingSweep.Proofs.Text.Digit
import ServingSweep.Uuid

/-!
An identifier reads back from the form it is written in.
-/

namespace ServingSweep.Uuid
variable {ds : List Char}

theorem filter_grouped (plain : '-' ∉ ds) : (grouped ds).filter (· ≠ '-') = ds := by
  have kept {l : List Char} (inner : l ⊆ ds) : l.filter (· ≠ '-') = l := by
    refine List.filter_eq_self.mpr (fun c member => decide_eq_true ?_)
    rintro rfl
    exact plain (inner member)
  have group (n m : Nat) : (ds.drop n).take m ⊆ ds :=
    fun _ member => List.mem_of_mem_drop (List.mem_of_mem_take member)
  have joined (n m : Nat) : (ds.drop n).take m ++ ds.drop (n + m) = ds.drop n := by
    rw [← List.drop_drop, List.take_append_drop]
  have dash (l : List Char) : ('-' :: l).filter (· ≠ '-') = l.filter (· ≠ '-') := rfl
  simp only [grouped, List.append_assoc, List.cons_append, List.filter_append, dash,
    kept (group _ _), kept (List.take_subset 8 ds), kept (List.drop_subset 20 ds)]
  rw [joined 16 4, joined 12 4, joined 8 4, List.take_append_drop]

theorem length_grouped (length : ds.length = 32) : (grouped ds).length = 36 := by
  simp only [grouped, List.length_append, List.length_cons, List.length_take, List.length_drop,
    length]
  rfl

theorem exists_of_mem_hexDigits {n value : Nat} {c : Char} (member : c ∈ Text.hexDigits n value) :
    ∃ d < 16, c = Nat.digitChar d := by
  induction n generalizing value with
  | zero => cases member
  | succ n ih =>
    rw [Text.hexDigits, List.mem_append, List.mem_singleton] at member
    rcases member with earlier | rfl
    · exact ih earlier
    · exact ⟨value % 16, Nat.mod_lt _ (by decide), rfl⟩

theorem ofDigits?_hexDigits (u : Uuid) : ofDigits? (Text.hexDigits 32 u.bits.toNat) = some u := by
  have fits : u.bits.toNat % 16 ^ 32 = u.bits.toNat := Nat.mod_eq_of_lt u.bits.isLt
  rw [ofDigits?, if_pos (Text.length_hexDigits _ _), Text.foldlM_hexDigits, fits, Option.map_some,
    BitVec.ofNat_toNat, BitVec.setWidth_eq]

theorem ofGrouped?_grouped (u : Uuid) :
    ofGrouped? (grouped (Text.hexDigits 32 u.bits.toNat)) = some u := by
  have plain : '-' ∉ Text.hexDigits 32 u.bits.toNat := by
    intro member
    obtain ⟨d, small, same⟩ := exists_of_mem_hexDigits member
    exact (by decide : ∀ d < 16, '-' ≠ Nat.digitChar d) d small same
  have length := length_grouped (Text.length_hexDigits 32 u.bits.toNat)
  rw [ofGrouped?, filter_grouped plain]
  exact (if_pos ⟨length, rfl⟩).trans (ofDigits?_hexDigits u)

theorem not_urn (value : Nat) :
    ¬((grouped (Text.hexDigits 32 value)).take urn.length).map Char.toLower = urn := by
  intro same
  have length := Text.length_hexDigits 32 value
  cases digits : Text.hexDigits 32 value with
  | nil =>
    rw [digits] at length
    cases length
  | cons c cs =>
    have member : c ∈ Text.hexDigits 32 value := by
      rw [digits]
      exact List.mem_cons_self
    obtain ⟨d, small, rfl⟩ := exists_of_mem_hexDigits member
    rw [digits] at same
    have first := congrArg List.head? same
    exact (by decide : ∀ d < 16, some (Nat.digitChar d).toLower ≠ urn.head?) d small first

theorem ofString?_toString (u : Uuid) : ofString? u.toString = some u := by
  have length := length_grouped (Text.length_hexDigits 32 u.bits.toNat)
  have prefixed := not_urn u.bits.toNat
  rw [ofString?, toString, String.toList_ofList]
  simp only [length, prefixed, Nat.reduceEqDiff, false_and, if_false]
  exact ofGrouped?_grouped u

end ServingSweep.Uuid
