import Mathlib.Data.List.Nodup
import Mathlib.Data.List.ProdSigma
import ServingSweep.Proofs.Search.Pinned
import ServingSweep.Proofs.Sweep.Supply

/-!
What a plan sweeps comes once. A table over distinct keys has distinct items, so the ladder and the
load sweeps have, and so has a grid where nothing that is given for the model is given twice.
-/

namespace ServingSweep
open scoped List

theorem Rows.nodup_table {α β γ : Type} {item : β → γ → α} {down : Series β} {across : List γ}
    (apart : ∀ b c b' c', item b c = item b' c' → b = b' ∧ c = c') (rows : down.toList.Nodup)
    (columns : across.Nodup) : (table item down across).items.Nodup := by
  have product : (table item down across).items =
      (down.toList ×ˢ across).map (fun key => item key.1 key.2) := by
    simp [items_table, SProd.sprod, List.product, List.map_flatMap, Function.comp_def]
  rw [product]
  refine (rows.product columns).map ?_
  rintro ⟨b, c⟩ ⟨b', c'⟩ same
  obtain ⟨rfl, rfl⟩ := apart b c b' c' same
  rfl

/-! ### Words -/

theorem Value.word_inj {n n' : UInt32} (same : word n = word n') : n = n' := by
  have words : Int64.ofNat n.toNat = Int64.ofNat n'.toNat := by
    injection same with scalars
    injection scalars
  have range (n : UInt32) : (Int64.ofNat n.toNat).toInt = n.toNat := by
    have small := n.toNat_lt
    rw [Int64.toInt_ofNat_of_lt (by omega)]
  have numbers : (n.toNat : Int) = n'.toNat := by
    rw [← range n, ← range n', words]
  exact UInt32.toNat_inj.mp (by omega)

theorem Ladder.overrides_inj {cpuOnly : Bool} {count size count' size' : UInt32}
    (same : overrides cpuOnly count size = overrides cpuOnly count' size') :
    count = count' ∧ size = size' := by
  simp only [overrides, List.cons.injEq, Prod.mk.injEq, true_and, and_true, Value.sequence.injEq,
    Value.mapping.injEq] at same
  exact ⟨Value.word_inj same.1, Value.word_inj same.2⟩

theorem Ladder.nodup_ofPlan (p : Plan) (cpuOnly : Bool) : (ofPlan p cpuOnly).items.Nodup :=
  Rows.nodup_table (fun _ _ _ _ => overrides_inj)
    ((Bounds.pairwise_all p.instances).imp (fun less => UInt32.ne_of_lt less))
    ((Bounds.pairwise_doublings p.batchSize).imp (fun less => UInt32.ne_of_lt less))

/-! ### Plans -/

structure Model.Distinct (m : Model) : Prop where
  keys : (m.axes.map Axis.key).Nodup
  values : ∀ axis ∈ m.axes, axis.values.Nodup
  concurrencies : m.pins.concurrencies.Nodup
  batchSizes : m.pins.batchSizes.Nodup

theorem Strategy.nodup_ofPlan (p : Plan) {m : Model} (distinct : m.Distinct) (baselineOnly : Bool) :
    (ofPlan p m baselineOnly).rows.items.Nodup := by
  unfold ofPlan
  split
  · exact List.nodup_nil
  · split
    · exact List.nodup_nil
    · split
      · next grid =>
        change (Rows.ofBlocks Overrides.rowKey (Grid.choices m.axes)).items.Nodup
        rw [Rows.items_ofBlocks]
        exact Grid.nodup_choices (Model.filled_of_hasGrid grid) distinct.keys distinct.values
      · exact Ladder.nodup_ofPlan p m.cpuOnly

def Load.key (l : Load) : UInt32 × UInt32 := (l.batchSize, l.concurrency)

theorem LoadSweep.nodup_ofPlan (p : Plan) {m : Model} (distinct : m.Distinct) (variant : String) :
    ((Course.rows (ofPlan p m variant)).items.map Load.key).Nodup := by
  have sizes : (batchSizes m).Nodup := by
    unfold batchSizes
    split
    · exact List.nodup_singleton 1
    · exact distinct.batchSizes
  have counts : (concurrencies p m).Nodup := by
    unfold concurrencies
    split
    · exact (Bounds.pairwise_doublings p.concurrency).imp (fun less => UInt32.ne_of_lt less)
    · exact distinct.concurrencies
  have keys : (Course.rows (ofPlan p m variant)).items.map Load.key =
      (Rows.table Prod.mk (.ofList (batchSizes m)) (concurrencies p m)).items := by
    change (rows variant (batchSizes m) (concurrencies p m) m.flags).items.map Load.key = _
    rw [rows, Rows.items_table, Rows.items_table, List.map_flatMap]
    simp only [List.map_map]
    rfl
  rw [keys]
  refine Rows.nodup_table (fun _ _ _ _ same => Prod.mk.inj same) ?_ counts
  rw [Series.toList_ofList]
  exact sizes

end ServingSweep
