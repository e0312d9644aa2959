import ServingSweep.Proofs.Sweep.Patient
import ServingSweep.Proofs.Sweep.Worlds

/-!
What calls add to the log. A course reports breaches of turn and ends of rows. After that a pull of
a server sweep adds only reports of `Making` the variant, the server's own among them (`adds_pull`).
-/

namespace ServingSweep

def World.Adds (P : Event → Prop) (w w' : World) : Prop :=
  ∃ es, w'.log = w.log ++ es ∧ ∀ e ∈ es, P e

namespace World.Adds
variable {P Q : Event → Prop} {w w' w'' : World}

theorem refl (w : World) : w.Adds P w := ⟨[], (List.append_nil _).symm, nofun⟩

theorem trans (first : w.Adds P w') (second : w'.Adds P w'') : w.Adds P w'' := by
  obtain ⟨es, log, all⟩ := first
  obtain ⟨more, log', all'⟩ := second
  refine ⟨es ++ more, ?_, List.forall_mem_append.mpr ⟨all, all'⟩⟩
  rw [log', log, List.append_assoc]

theorem mono (adds : w.Adds P w') (all : ∀ e, P e → Q e) : w.Adds Q w' := by
  obtain ⟨es, log, each⟩ := adds
  exact ⟨es, log, fun e member => all e (each e member)⟩

theorem sayAll (w : World) {es : List Event} (all : ∀ e ∈ es, P e) : w.Adds P (w.sayAll es) :=
  ⟨es, w.sayAll_log es, all⟩

theorem say (w : World) {e : Event} (holds : P e) : w.Adds P (w.say e) :=
  ⟨[e], w.say_log e, List.forall_mem_singleton.mpr holds⟩

end World.Adds

/-- What may be reported while a variant is made: the questions for its base, how it is built, and
what else a server reports. -/
inductive Event.Making (foreign : Event → Prop) : Event → Prop where
  | question {e : Event} (told : e.OfQuestion) : Making foreign e
  | building (variant : String) : Making foreign (.building variant)
  | enabling (key : String) : Making foreign (.enabling key)
  | setting (key : String) (value : Value) : Making foreign (.setting key value)
  | foreign {e : Event} (told : foreign e) : Making foreign e

theorem Event.Making.plain {e : Event} (making : Making (fun e => e.isNotice = false) e) :
    e.isNotice = false := by
  cases making with
  | question told => cases told <;> rfl
  | foreign told => exact told
  | _ => rfl

variable {foreign : Event → Prop}

def Resources.Tells (r : Resources) (foreign : Event → Prop) : Prop :=
  ∀ client, r.client = some client → ∀ call, ∀ e ∈ client.reports call, foreign e

section
variable {r : Resources} {w w' : World}

theorem World.Asks.adds (tells : r.Tells foreign) (step : World.Asks r.client w w') :
    w.Adds (Event.Making foreign) w' := by
  cases step with
  | @called client held _ call =>
    exact .sayAll (w.called call) fun e member => .foreign (tells client held call e member)
  | said _ told => exact .say w (.question told)

theorem World.Asked.adds (tells : r.Tells foreign) (asked : World.Asked r.client w w') :
    w.Adds (Event.Making foreign) w' := by
  induction asked with
  | refl => exact .refl w
  | tail _ step before => exact before.trans (step.adds tells)

end

theorem Variant.making_buildEvents (name : String) (o : Overrides) :
    ∀ e ∈ buildEvents name o, Event.Making foreign e := by
  intro e member
  rcases List.mem_cons.mp member with rfl | member
  · exact .building name
  · obtain ⟨entry, -, rfl⟩ := List.mem_map.mp member
    unfold Overrides.event
    split
    · exact .enabling entry.1
    · exact .setting entry.1 entry.2

/-- Past the item before, a pull reports of the variant only that it makes. -/
theorem ServerSweep.adds_pull {s : ServerSweep} (tells : s.resources.Tells foreign) (w : World) :
    (s.course.advance w).2.Adds (Event.Making foreign) (s.pull w).world := by
  rcases s.world_pull w with asked | ⟨o, base, later, asked, same⟩
  · exact asked.adds tells
  · rw [same]
    exact (asked.adds tells).trans (.sayAll { later with names := _ } (Variant.making_buildEvents _ o))

end ServingSweep
