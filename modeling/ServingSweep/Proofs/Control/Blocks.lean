import ServingSweep.Resources

/-!
The calls that a question to a server consists of. A question is a `Block`: the model is loaded,
asked about and unloaded, or refused to be loaded. Blocks one after the other leave no model loaded
(`bracketed_append`), and the first call of a block that fails decides what is answered.
-/

namespace ServingSweep

def faultOf {ε α : Type} : Except ε α → Option ε
  | .error fault => some fault
  | .ok _ => none

namespace Client

def fault? (c : Client) (before : List Call) : Call → Option ControlFault
  | .load model => faultOf (c.load before model)
  | .unload model => faultOf (c.unload before model)
  | .config model retries => faultOf (c.config before model retries)

def firstFault (c : Client) (before : List Call) : List Call → Option ControlFault
  | [] => none
  | call :: rest => (c.fault? before call).or (c.firstFault (before ++ [call]) rest)

inductive Block (c : Client) (before : List Call) (model : String) (retries : UInt32) :
    List Call → Prop where
  | refused (refused : (c.fault? before (.load model)).isSome) :
      Block c before model retries [.load model]
  | whole (loaded : c.fault? before (.load model) = none) :
      Block c before model retries [.load model, .config model retries, .unload model]

/-- Calls that begin with the model `held` loaded, if any, load one only while none is loaded,
unload only the one that is, and end with none. -/
def Bracketed (c : Client) : List Call → Option String → List Call → Prop
  | _, held, [] => held = none
  | before, held, .load model :: rest => held = none ∧
      c.Bracketed (before ++ [.load model])
        (if (c.fault? before (.load model)).isNone then some model else none) rest
  | before, held, .unload model :: rest => held = some model ∧
      c.Bracketed (before ++ [.unload model]) none rest
  | before, held, .config model retries :: rest =>
      c.Bracketed (before ++ [.config model retries]) held rest

variable {c : Client}

theorem bracketed_append {before calls more : List Call} {held : Option String}
    (first : c.Bracketed before held calls) (second : c.Bracketed (before ++ calls) none more) :
    c.Bracketed before held (calls ++ more) := by
  -- Each call hands the model that is loaded after it on to the rest.
  induction calls generalizing before held with
  | nil =>
    obtain rfl : held = none := first
    simpa using second
  | cons call calls ih =>
    have onward : c.Bracketed (before ++ [call] ++ calls) none more := by simpa using second
    cases call with
    | load model => exact ⟨first.1, ih first.2 onward⟩
    | unload model => exact ⟨first.1, ih first.2 onward⟩
    | config model retries => exact ih first onward

theorem bracketed_block {before calls : List Call} {model : String} {retries : UInt32}
    (block : c.Block before model retries calls) : c.Bracketed before none calls := by
  cases block with
  | refused refused =>
    refine ⟨rfl, ?_⟩
    rw [Option.isNone_eq_false_iff.mpr refused]
    rfl
  | whole loaded =>
    refine ⟨rfl, ?_⟩
    rw [loaded]
    exact ⟨rfl, rfl⟩

/-! ### Questions -/

theorem calls_asking (c : Client) (model : String) (retries : UInt32) (w : World) :
    (c.asking model retries w).2.calls = w.calls ++ [.config model retries] ∧
      faultOf (c.asking model retries w).1 = c.firstFault w.calls [.config model retries] := by
  unfold asking
  dsimp only
  cases answer : c.config w.calls model retries with
  | error fault => exact ⟨rfl, by simp [firstFault, fault?, answer, faultOf]⟩
  | ok config => exact ⟨rfl, by simp [firstFault, fault?, answer, faultOf]⟩

/-- The fault of the question stands above that of the unloading. -/
theorem settle_eq (model : String) (answer : Except ControlFault Config)
    (unloaded : Except ControlFault Unit) (w : World) :
    (settle model answer unloaded w).2.calls = w.calls ∧
      faultOf (settle model answer unloaded w).1 = (faultOf answer).or (faultOf unloaded) := by
  cases answer <;> cases unloaded <;> exact ⟨rfl, rfl⟩

theorem calls_fetchLoaded (c : Client) (model : String) (retries : UInt32) (w : World) :
    ∃ made, (c.fetchLoaded model retries w).2.calls = w.calls ++ made ∧
      c.Block w.calls model retries made ∧
      faultOf (c.fetchLoaded model retries w).1 = c.firstFault w.calls made := by
  unfold fetchLoaded loading
  dsimp only
  cases loaded : c.load w.calls model with
  | error fault =>
    have refused : c.fault? w.calls (.load model) = some fault := congrArg faultOf loaded
    refine ⟨[.load model], rfl, .refused (by rw [refused]; rfl), ?_⟩
    rw [firstFault, refused]
    rfl
  | ok _ =>
    have granted : c.fault? w.calls (.load model) = none := congrArg faultOf loaded
    obtain ⟨asked, answer⟩ := c.calls_asking model retries (c.noted w (.load model))
    refine ⟨_, ?_, .whole granted, ?_⟩
    · dsimp only
      rw [(settle_eq _ _ _ _).1]
      change (c.asking model retries (c.noted w (.load model))).2.calls ++ [.unload model] = _
      rw [asked]
      simp [noted]
    · dsimp only
      rw [(settle_eq _ _ _ _).2, answer]
      simp only [unloading, asked, firstFault, granted, Option.none_or, Option.or_none]
      rfl

end Client

/-! ### Questions of a plan -/

/-- The calls about a model are a block, or the mere question where it may be left alone; the first
fault among them is the one returned. -/
structure Contact (c : Client) (plan : Plan) (model : String) (alone : Prop)
    (before made : List Call) (fault : Option Fault) : Prop where
  shape : c.Block before model plan.retries made ∨ alone ∧ made = [.config model plan.retries]
  answer : fault = (c.firstFault before made).map .control

theorem Contact.bracketed {c : Client} {plan : Plan} {model : String} {alone : Prop}
    {before made : List Call} {fault : Option Fault}
    (contact : Contact c plan model alone before made fault) : c.Bracketed before none made := by
  rcases contact.shape with block | ⟨-, rfl⟩
  · exact c.bracketed_block block
  · exact rfl

namespace Resources
variable {r : Resources} {c : Client}

/-- No other client is asked. -/
def Uses (r : Resources) (c : Client) : Prop := ∀ other, r.client = some other → other = c

theorem calls_askServer (uses : r.Uses c) (model : String) (reload : Bool) (w : World) :
    (r.askServer model reload w).2.calls = w.calls ∨
    ∃ made, (r.askServer model reload w).2.calls = w.calls ++ made ∧
      Contact c r.plan model (reload = false) w.calls made
        (faultOf (r.askServer model reload w).1) := by
  have mapped (answer : Except ControlFault Config) :
      faultOf (answer.mapError Fault.control) = (faultOf answer).map .control := by
    cases answer <;> rfl
  unfold askServer
  split
  · exact .inl rfl
  · next client held =>
    obtain rfl : client = c := uses client held
    dsimp only
    rw [mapped]
    unfold Client.fetch
    cases reload with
    | true =>
      obtain ⟨made, calls, block, fault⟩ := client.calls_fetchLoaded model r.plan.retries w
      exact .inr ⟨made, calls, .inl block, congrArg _ fault⟩
    | false =>
      obtain ⟨calls, fault⟩ := client.calls_asking model r.plan.retries w
      exact .inr ⟨_, calls, .inr ⟨rfl, rfl⟩, congrArg _ fault⟩

def Lacks (r : Resources) (model : String) : Prop :=
  ∃ path name, r.repository r.plan.repository model = .error (.notFound path name)

/-- Looking for a base asks the server only where the repository has none. -/
theorem calls_base (uses : r.Uses c) (model : String) (w : World) :
    (r.base model w).2.calls = w.calls ∨ r.Lacks model ∧
    ∃ made, (r.base model w).2.calls = w.calls ++ made ∧
      Contact c r.plan model False w.calls made (faultOf (r.base model w).1) := by
  unfold base
  split
  · exact .inl rfl
  · next path name lacks =>
    split
    · let told := w.say (.askingServer model r.plan.repository)
      rcases calls_askServer uses model true told with same | ⟨made, calls, shape, answer⟩
      · exact .inl same
      · refine .inr ⟨⟨path, name, lacks⟩, made, calls, ?_, answer⟩
        exact .inl (shape.resolve_right (fun alone => Bool.noConfusion alone.1))
    · exact .inl rfl
  · exact .inl rfl

end Resources
end ServingSweep
