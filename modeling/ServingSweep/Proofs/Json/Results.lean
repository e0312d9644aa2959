import ServingSweep.Proofs.Binary64
import ServingSweep.Proofs.Json.Readers

/-!
What readers give, whatever the text: maps have their keys in order, numbers are finite, and the
parts of what is read were read one level below.
-/

namespace ServingSweep

theorem Keyed.mem_ofList {α : Type} {entries : List (String × α)} {e : String × α}
    (member : e ∈ ofList entries) : e ∈ entries := by
  have step : ∀ (entries : List (String × α)) (m : Keyed α),
      e ∈ entries.foldl (fun m e => m.insert e.1 e.2) m → e ∈ m ∨ e ∈ entries := by
    intro entries
    induction entries with
    | nil => exact fun m member => .inl member
    | cons f entries ih =>
      intro m member
      rcases ih _ member with inserted | later
      · rcases mem_insert inserted with rfl | old
        · exact .inr List.mem_cons_self
        · exact .inl old
      · exact .inr (List.mem_cons_of_mem _ later)
  exact (step entries [] member).resolve_left List.not_mem_nil

namespace Json
variable {α : Type} {read : Reader α} {depth : Nat} {d : Document}

namespace Reader

theorem isFinite_of_real {x : Binary64} (found : real depth d = some x) : x.isFinite = true := by
  cases d with
  | number n =>
    obtain ⟨number, -, rfl⟩ := Option.map_eq_some_iff.mp found
    cases number with
    | integer n => exact Binary64.isFinite_ofInt n.val
    | real x => exact x.finite
  | _ => cases found

theorem exists_of_list {xs : List α} (found : list read depth d = some xs) :
    ∃ below items, depth = below + 1 ∧ d = .array items ∧
      ∀ x ∈ xs, ∃ item ∈ items, read below item = some x := by
  unfold list at found
  split at found
  · next below items =>
    refine ⟨below, items, rfl, rfl, fun x member => ?_⟩
    exact exists_of_mem_right (mapM_eq_some_iff.mp found) member
  · cases found

theorem exists_of_keyed {m : Keyed α} (found : keyed read depth d = some m) :
    m.Ordered ∧ ∃ below members, depth = below + 1 ∧ d = .object members ∧
      ∀ e ∈ m, ∃ n ∈ members, read below n.2 = some e.2 := by
  unfold keyed at found
  split at found
  · next below members =>
    obtain ⟨entries, reads, rfl⟩ := Option.map_eq_some_iff.mp found
    refine ⟨Keyed.ordered_ofList entries, below, members, rfl, rfl, fun e member => ?_⟩
    obtain ⟨n, inside, entry⟩ :=
      exists_of_mem_right (mapM_eq_some_iff.mp reads) (Keyed.mem_ofList member)
    obtain ⟨key, -, entry⟩ := Option.bind_eq_some_iff.mp entry
    obtain ⟨x, value, rfl⟩ := Option.map_eq_some_iff.mp entry
    exact ⟨n, inside, value⟩
  · cases found

end Reader

namespace Record
variable {r : Record} {names : List String} {name : String} {x default : α}

theorem depth_of? (found : of? names depth d = some r) : depth = r.depth + 1 := by
  unfold of? at found
  split at found
  · obtain ⟨members, -, found⟩ := Option.bind_eq_some_iff.mp found
    obtain ⟨slots, -, same⟩ := Option.bind_eq_some_iff.mp found
    rw [← Option.some.inj same]
  · split at found
    · rw [← Option.some.inj found]
    · cases found
  · cases found

theorem exists_of_required (found : r.required name read = some x) :
    ∃ d, read r.depth d = some x := by
  unfold required at found
  split at found
  · exact ⟨_, found⟩
  · cases found
  · cases found

theorem exists_of_defaulted (found : r.defaulted name read default = some x) :
    x = default ∨ ∃ d, read r.depth d = some x := by
  unfold defaulted at found
  split at found
  · exact .inr ⟨_, found⟩
  · exact .inl (Option.some.inj found).symm
  · exact .inl (Option.some.inj found).symm

end Record
end Json
end ServingSweep
