import Mathlib.Logic.Function.Basic
import ServingSweep.Control.Script
import ServingSweep.Proofs.Search.Apart
import ServingSweep.Proofs.Search.Contacts

/-!
Runs of many sweeps and searches on one server. Whatever they do in whatever order, the calls of the
server are the blocks of the errands that ask it, one for each; so no model is left loaded.
-/

namespace ServingSweep
open Source

inductive Member where
  | load (sweep : LoadSweep)
  | server (sweep : ServerSweep)
  | search (search : ModelSearch)

namespace Member

/-- The server sweep that it is or has. -/
def server? : Member → Option ServerSweep
  | load _ => none
  | server sweep => some sweep
  | search s => some s.server

def stocked (repository : Repository) : Member → Member
  | load sweep => load sweep
  | server sweep => server (sweep.stocked repository)
  | search s => search { s with server := s.server.stocked repository }

def pull : Member → World → Option Fault × Member × World
  | load sweep, w =>
    let p := Source.pull sweep w
    (faultOf p.result, load p.source, p.world)
  | server sweep, w =>
    let p := Source.pull sweep w
    (faultOf p.result, server p.source, p.world)
  | search s, w =>
    let p := Source.pull s w
    (faultOf p.result, search p.source, p.world)

def feed (batch : Batch) : Member → World → Member × World
  | load sweep, w =>
    let (sweep, w) := Source.feed sweep batch w
    (load sweep, w)
  | server sweep, w =>
    let (sweep, w) := Source.feed sweep batch w
    (server sweep, w)
  | search s, w =>
    let (s, w) := Source.feed s batch w
    (search s, w)

end Member

/-- One thing to do: to look for the base of a model, or to pull or feed a member, with what the
repository holds at the time. -/
inductive Errand (ι : Type) where
  | base (r : Resources) (model : String)
  | pull (i : ι) (repository : Repository)
  | feed (i : ι) (batch : Batch)

/-- What an errand came to: the calls before it, those it made, and the fault it returned. -/
structure Entry (ι : Type) where
  errand : Errand ι
  before : List Call
  made : List Call
  fault : Option Fault

/-- Members that share a server, with the calls made to it so far. -/
structure Floor (ι : Type) where
  members : ι → Member
  calls : List Call

variable {ι : Type} [DecidableEq ι]

/-- Runs an errand in a world of which only the calls are the server's. -/
def Floor.act (f : Floor ι) (e : Errand ι) (w : World) : Option Fault × Floor ι :=
  let w := { w with calls := f.calls }
  match e with
  | .base r model =>
    let (answer, w) := r.base model w
    (faultOf answer, { f with calls := w.calls })
  | .pull i repository =>
    let (fault, member, w) := ((f.members i).stocked repository).pull w
    (fault, ⟨Function.update f.members i member, w.calls⟩)
  | .feed i batch =>
    let (member, w) := (f.members i).feed batch w
    (none, ⟨Function.update f.members i member, w.calls⟩)

def Floor.entry (f : Floor ι) (e : Errand ι) (w : World) : Entry ι :=
  let (fault, next) := f.act e w
  ⟨e, f.calls, next.calls.drop f.calls.length, fault⟩

def Floor.run (f : Floor ι) : List (Errand ι × World) → List (Entry ι) × Floor ι
  | [] => ([], f)
  | (e, w) :: errands =>
    let (entries, last) := (f.act e w).2.run errands
    (f.entry e w :: entries, last)

/-- An errand made no calls, or those of one question that it had to ask. -/
def Entry.Accounted (c : Client) (members : ι → Member) (e : Entry ι) : Prop :=
  e.made = [] ∨
  match e.errand with
  | .base r model => r.Lacks model ∧ Contact c r.plan model False e.before e.made e.fault
  | .pull i repository => ∃ s, (members i).server? = some s ∧
      (s.strategy ≠ .remote → (s.stocked repository).resources.Lacks s.model.name) ∧
      Contact c s.resources.plan s.model.name
        (s.strategy = .remote ∧ s.resources.plan.keepLoaded = true) e.before e.made e.fault
  | .feed _ _ => False

/-- A pull of a member that asked the server. -/
def Entry.asks (i : ι) (e : Entry ι) : Bool :=
  match e.errand with
  | .pull j _ => decide (j = i) && !e.made.isEmpty
  | _ => false

def Member.Uses (c : Client) (m : Member) : Prop :=
  ∀ s, m.server? = some s → s.resources.Uses c

def Errand.Uses (c : Client) : Errand ι → Prop
  | .base r _ => r.Uses c
  | .pull _ _ => True
  | .feed _ _ => True

def Floor.Uses (c : Client) (f : Floor ι) : Prop := ∀ i, (f.members i).Uses c

/-! ### Members -/

/-- What becomes of a server sweep: it stays for the same, and settled once it is. -/
structure ServerSweep.Grows (s s' : ServerSweep) : Prop where
  model : s'.model = s.model
  plan : s'.resources.plan = s.resources.plan
  client : s'.resources.client = s.resources.client
  strategy : s'.strategy = s.strategy
  settled : s.Settled → s'.Settled

inductive Member.Grows : Member → Member → Prop where
  | idle {m m' : Member} (before : m.server? = none) (after : m'.server? = none) : Grows m m'
  | swept {m m' : Member} {s s' : ServerSweep} (before : m.server? = some s)
      (after : m'.server? = some s') (grows : s.Grows s') : Grows m m'

theorem ServerSweep.Grows.refl (s : ServerSweep) : s.Grows s := ⟨rfl, rfl, rfl, rfl, id⟩

theorem ServerSweep.Grows.trans {s s' s'' : ServerSweep} (first : s.Grows s')
    (second : s'.Grows s'') : s.Grows s'' :=
  ⟨second.model.trans first.model, second.plan.trans first.plan,
    second.client.trans first.client, second.strategy.trans first.strategy,
    fun settled => second.settled (first.settled settled)⟩

namespace Member
variable {m m' m'' : Member}

theorem Grows.refl (m : Member) : m.Grows m := by
  cases found : m.server? with
  | none => exact .idle found found
  | some s => exact .swept found found (.refl s)

theorem Grows.trans (first : m.Grows m') (second : m'.Grows m'') : m.Grows m'' := by
  cases first with
  | idle before mid =>
    cases second with
    | idle _ after => exact .idle before after
    | swept found _ _ => cases mid.symm.trans found
  | swept before mid grows =>
    cases second with
    | idle found _ => cases mid.symm.trans found
    | swept found after grows' =>
      obtain rfl := Option.some.inj (mid.symm.trans found)
      exact .swept before after (grows.trans grows')

theorem Grows.found (grows : m.Grows m') {s' : ServerSweep} (after : m'.server? = some s') :
    ∃ s, m.server? = some s ∧ s.Grows s' := by
  cases grows with
  | idle _ none => cases none.symm.trans after
  | swept before found grows =>
    obtain rfl := Option.some.inj (found.symm.trans after)
    exact ⟨_, before, grows⟩

theorem Grows.kept (grows : m.Grows m') {s : ServerSweep} (before : m.server? = some s) :
    ∃ s', m'.server? = some s' ∧ s.Grows s' := by
  cases grows with
  | idle none _ => cases none.symm.trans before
  | swept found after grows =>
    obtain rfl := Option.some.inj (found.symm.trans before)
    exact ⟨_, after, grows⟩

theorem Grows.uses {c : Client} (grows : m.Grows m') (uses : m.Uses c) : m'.Uses c := by
  intro s' after other asked
  obtain ⟨s, before, same⟩ := grows.found after
  exact uses s before other (same.client.symm.trans asked)

theorem server?_stocked (repository : Repository) (m : Member) :
    (m.stocked repository).server? = m.server?.map (·.stocked repository) := by
  cases m <;> rfl

theorem grows_stocked (repository : Repository) (m : Member) : m.Grows (m.stocked repository) := by
  cases found : m.server? with
  | none =>
    refine .idle found ?_
    rw [server?_stocked, found]
    rfl
  | some s =>
    have kept : (m.stocked repository).server? = some (s.stocked repository) := by
      rw [server?_stocked, found]
      rfl
    exact .swept found kept ⟨rfl, rfl, rfl, rfl, id⟩

theorem grows_feed (batch : Batch) (m : Member) (w : World) :
    m.Grows (m.feed batch w).1 ∧ (m.feed batch w).2.calls = w.calls := by
  have fed (s : ServerSweep) (w : World) :
      s.Grows (Source.feed s batch w).1 ∧ (Source.feed s batch w).2.calls = w.calls :=
    ⟨⟨rfl, rfl, rfl, rfl, id⟩, rfl⟩
  cases m with
  | load sweep => exact ⟨.idle rfl rfl, rfl⟩
  | server sweep => exact ⟨.swept rfl rfl (fed sweep w).1, (fed sweep w).2⟩
  | search s =>
    have same : (s.feed batch w).1.server = s.server ∧ (s.feed batch w).2.calls = w.calls := by
      unfold Search.feed
      dsimp only
      split
      · exact ⟨rfl, rfl⟩
      · exact ⟨rfl, rfl⟩
    refine ⟨.swept rfl rfl ?_, same.2⟩
    change s.server.Grows (s.feed batch w).1.server
    rw [same.1]
    exact .refl s.server

end Member

structure Member.Pulls (c : Client) (m : Member) (before : List Call)
    (p : Option Fault × Member × World) : Prop where
  grows : m.Grows p.2.1
  idle : m.server? = none → p.2.2.calls = before
  asks : ∀ s, m.server? = some s → s.Asks c before p.2.2.calls p.1
  remote : ∀ s s', m.server? = some s → p.2.1.server? = some s' → s.strategy = .remote →
    p.2.2.calls = before ∨ s'.Settled

theorem Member.pulls_pull {c : Client} {m : Member} (uses : m.Uses c) (w : World) :
    m.Pulls c w.calls (m.pull w) := by
  cases m with
  | load sweep =>
    exact ⟨.idle rfl rfl, fun _ => Course.calls_pull sweep w, (fun _ found => nomatch found),
      (fun _ _ found => nomatch found)⟩
  | server sweep =>
    obtain ⟨model, resources, strategy⟩ := sweep.continues_pull w
    obtain ⟨asks, -, settled⟩ := ServerSweep.leaves_pull (uses sweep rfl) w
    refine ⟨.swept rfl rfl ⟨model, congrArg Resources.plan resources,
      congrArg Resources.client resources, strategy, fun before => settled (.inl before)⟩,
      (fun none => nomatch none), ?_, ?_⟩
    · rintro s ⟨⟩
      exact asks
    · rintro s s' ⟨⟩ ⟨⟩ remote
      exact .inr (settled (.inr (.inl remote)))
  | search s =>
    obtain ⟨asks, settled, remote⟩ := Search.leaves_pull (uses s.server rfl) w
    obtain ⟨model, resources, strategy⟩ := (Search.continues_pull s w).1
    refine ⟨.swept rfl rfl ⟨model, congrArg Resources.plan resources,
      congrArg Resources.client resources, strategy, settled⟩, (fun none => nomatch none), ?_, ?_⟩
    · rintro s ⟨⟩
      exact asks
    · rintro s s' ⟨⟩ ⟨⟩ known
      exact remote known

/-! ### One errand -/

theorem grows_update {members : ι → Member} {i : ι} {m : Member} (grows : (members i).Grows m)
    (j : ι) : (members j).Grows (Function.update members i m j) := by
  by_cases here : j = i
  · subst here
    rw [Function.update_self]
    exact grows
  · rw [Function.update_of_ne here]
    exact .refl (members j)

structure Floor.Acts (c : Client) (f : Floor ι) (e : Errand ι) (w : World) : Prop where
  calls : (f.act e w).2.calls = f.calls ++ (f.entry e w).made
  accounted : (f.entry e w).Accounted c f.members
  grows : ∀ i, (f.members i).Grows ((f.act e w).2.members i)
  once : ∀ i s s', (f.members i).server? = some s →
    ((f.act e w).2.members i).server? = some s' → s.strategy = .remote →
    (f.entry e w).asks i = true → ¬ s.Settled ∧ s'.Settled

theorem Entry.asks_iff {i : ι} {e : Entry ι} :
    e.asks i = true ↔ (∃ repository, e.errand = .pull i repository) ∧ e.made ≠ [] := by
  unfold asks
  cases e.errand with
  | base r model => simp
  | feed j batch => simp
  | pull j repository => simp

namespace Floor
variable {c : Client} {f : Floor ι} {e : Errand ι} {w : World}

theorem made_entry {made : List Call} (calls : (f.act e w).2.calls = f.calls ++ made) :
    (f.entry e w).made = made := by
  change (f.act e w).2.calls.drop f.calls.length = made
  rw [calls, List.drop_left]

theorem made_quiet (calls : (f.act e w).2.calls = f.calls) : (f.entry e w).made = [] :=
  made_entry (calls.trans (List.append_nil _).symm)

theorem acts_quiet (calls : (f.act e w).2.calls = f.calls)
    (grows : ∀ i, (f.members i).Grows ((f.act e w).2.members i)) : f.Acts c e w := by
  have made := made_quiet calls
  refine ⟨?_, .inl made, grows, ?_⟩
  · rw [made, List.append_nil]
    exact calls
  · intro i s s' _ _ _ asked
    exact absurd made (Entry.asks_iff.mp asked).2

theorem acts_base {r : Resources} (uses : r.Uses c) (model : String) :
    f.Acts c (.base r model) w := by
  rcases Resources.calls_base uses model { w with calls := f.calls } with
    same | ⟨lacks, made, calls, contact⟩
  · exact acts_quiet same (fun i => .refl (f.members i))
  · have noted : (f.entry (.base r model) w).made = made := made_entry calls
    refine ⟨?_, .inr ⟨lacks, ?_⟩, fun i => .refl (f.members i), ?_⟩
    · rw [noted]
      exact calls
    · rw [noted]
      exact contact
    · intro i s s' _ _ _ asked
      obtain ⟨⟨_, other⟩, -⟩ := Entry.asks_iff.mp asked
      cases other

theorem acts_pull {i : ι} (uses : (f.members i).Uses c) (repository : Repository) :
    f.Acts c (.pull i repository) w := by
  have stocked := Member.grows_stocked repository (f.members i)
  obtain ⟨grows, idle, asks, remote⟩ :=
    Member.pulls_pull (stocked.uses uses) { w with calls := f.calls }
  have known := Member.server?_stocked repository (f.members i)
  have grown (j : ι) : (f.members j).Grows ((f.act (.pull i repository) w).2.members j) :=
    grows_update (stocked.trans grows) j
  cases found : (f.members i).server? with
  | none =>
    rw [found] at known
    exact acts_quiet (idle known) grown
  | some s =>
    rw [found] at known
    -- The sweep that asks differs from the member's in its repository only.
    rcases asks _ known with same | ⟨unsettled, lacks, made, calls, contact⟩
    · exact acts_quiet same grown
    · have noted : (f.entry (.pull i repository) w).made = made := made_entry calls
      refine ⟨?_, .inr ⟨s, found, lacks, ?_⟩, grown, ?_⟩
      · rw [noted]
        exact calls
      · rw [noted]
        exact contact
      · intro j t t' before after away asked
        obtain ⟨⟨_, same⟩, something⟩ := Entry.asks_iff.mp asked
        obtain rfl : i = j := congrArg (fun | .pull k _ => k | _ => i) same
        obtain rfl := Option.some.inj (found.symm.trans before)
        refine ⟨unsettled, ?_⟩
        have pulled := Function.update_self i
          (((f.members i).stocked repository).pull { w with calls := f.calls }).2.1 f.members
        have after := (congrArg Member.server? pulled).symm.trans after
        exact (remote _ t' known after away).resolve_left (fun same => something (made_quiet same))

theorem acts_feed (i : ι) (batch : Batch) : f.Acts c (.feed i batch) w := by
  obtain ⟨grows, calls⟩ := Member.grows_feed batch (f.members i) { w with calls := f.calls }
  exact acts_quiet calls (grows_update grows)

theorem acts (uses : f.Uses c) (asks : e.Uses c) : f.Acts c e w := by
  cases e with
  | base r model => exact acts_base asks model
  | pull i repository => exact acts_pull (uses i) repository
  | feed i batch => exact acts_feed i batch

end Floor

/-! ### Runs -/

omit [DecidableEq ι] in
/-- Members that grew account for no other calls. -/
theorem Entry.Accounted.earlier {c : Client} {members members' : ι → Member} {e : Entry ι}
    (accounted : e.Accounted c members') (grows : ∀ i, (members i).Grows (members' i)) :
    e.Accounted c members := by
  rcases accounted with quiet | accounted
  · exact .inl quiet
  · refine .inr ?_
    cases kind : e.errand with
    | base r model =>
      rw [kind] at accounted
      exact accounted
    | pull i repository =>
      rw [kind] at accounted
      obtain ⟨s', after, lacks, contact⟩ := accounted
      obtain ⟨s, before, model, plan, client, strategy, settled⟩ := (grows i).found after
      refine ⟨s, before, ?_, ?_⟩
      · rw [strategy] at lacks
        intro here
        obtain ⟨path, name, missing⟩ := lacks here
        refine ⟨path, name, ?_⟩
        change repository s.resources.plan.repository s.model.name = _
        rw [← plan, ← model]
        exact missing
      · rw [strategy, model, plan] at contact
        exact contact
    | feed i batch =>
      rw [kind] at accounted
      exact accounted

omit [DecidableEq ι] in
theorem Entry.Accounted.bracketed {c : Client} {members : ι → Member} {e : Entry ι}
    (accounted : e.Accounted c members) : c.Bracketed e.before none e.made := by
  rcases accounted with quiet | accounted
  · rw [quiet]
    exact rfl
  · revert accounted
    split
    · exact fun ⟨_, contact⟩ => contact.bracketed
    · exact fun ⟨_, _, _, contact⟩ => contact.bracketed
    · exact False.elim

namespace Floor
variable {c : Client} {f : Floor ι} {errands : List (Errand ι × World)}

theorem Acts.uses {e : Errand ι} {w : World} (acts : f.Acts c e w) (uses : f.Uses c) :
    (f.act e w).2.Uses c :=
  fun i => (acts.grows i).uses (uses i)

theorem errands_run (f : Floor ι) (errands : List (Errand ι × World)) :
    (f.run errands).1.map Entry.errand = errands.map Prod.fst := by
  induction errands generalizing f with
  | nil => rfl
  | cons errand errands ih => exact congrArg (errand.1 :: ·) (ih (f.act errand.1 errand.2).2)

theorem calls_run (uses : f.Uses c) (asks : ∀ e ∈ errands, e.1.Uses c) :
    (f.run errands).2.calls = f.calls ++ (f.run errands).1.flatMap Entry.made := by
  induction errands generalizing f with
  | nil => exact (List.append_nil _).symm
  | cons errand errands ih =>
    obtain ⟨e, w⟩ := errand
    obtain ⟨ask, asks⟩ := List.forall_mem_cons.mp asks
    have acts : f.Acts c e w := acts uses ask
    calc ((f.act e w).2.run errands).2.calls
      _ = (f.act e w).2.calls ++ ((f.act e w).2.run errands).1.flatMap Entry.made :=
        ih (acts.uses uses) asks
      _ = f.calls ++ (f.entry e w).made ++ ((f.act e w).2.run errands).1.flatMap Entry.made := by
        rw [acts.calls]
      _ = f.calls ++ ((f.entry e w).made ++ ((f.act e w).2.run errands).1.flatMap Entry.made) :=
        List.append_assoc _ _ _

theorem bracketed_run (uses : f.Uses c) (asks : ∀ e ∈ errands, e.1.Uses c) :
    c.Bracketed f.calls none ((f.run errands).1.flatMap Entry.made) := by
  induction errands generalizing f with
  | nil => exact rfl
  | cons errand errands ih =>
    obtain ⟨e, w⟩ := errand
    obtain ⟨ask, asks⟩ := List.forall_mem_cons.mp asks
    have acts : f.Acts c e w := acts uses ask
    have rest := ih (acts.uses uses) asks
    rw [acts.calls] at rest
    exact Client.bracketed_append acts.accounted.bracketed rest

/-- Every entry stands after the calls of those before it, and accounts for its own. -/
theorem accounted_run (uses : f.Uses c) (asks : ∀ e ∈ errands, e.1.Uses c)
    {earlier later : List (Entry ι)} {entry : Entry ι}
    (stands : (f.run errands).1 = earlier ++ entry :: later) :
    entry.before = f.calls ++ earlier.flatMap Entry.made ∧ entry.Accounted c f.members := by
  -- What a later entry accounts for to the members of its time, it does to those at the beginning.
  induction errands generalizing f earlier with
  | nil => simp [run] at stands
  | cons errand errands ih =>
    obtain ⟨e, w⟩ := errand
    obtain ⟨ask, asks⟩ := List.forall_mem_cons.mp asks
    have acts : f.Acts c e w := acts uses ask
    change f.entry e w :: ((f.act e w).2.run errands).1 = earlier ++ entry :: later at stands
    cases earlier with
    | nil =>
      obtain ⟨rfl, -⟩ := List.cons.inj stands
      exact ⟨(List.append_nil _).symm, acts.accounted⟩
    | cons first earlier =>
      obtain ⟨rfl, further⟩ := List.cons.inj stands
      obtain ⟨before, accounted⟩ := ih (acts.uses uses) asks further
      refine ⟨?_, accounted.earlier acts.grows⟩
      rw [before, acts.calls, List.flatMap_cons, List.append_assoc]

/-- A remote member asks in one of its pulls at most, and in none once it is settled. -/
theorem once_run (uses : f.Uses c) (asks : ∀ e ∈ errands, e.1.Uses c) {i : ι} {s : ServerSweep}
    (found : (f.members i).server? = some s) (remote : s.strategy = .remote) :
    (f.run errands).1.countP (Entry.asks i) ≤ 1 ∧
      (s.Settled → (f.run errands).1.countP (Entry.asks i) = 0) := by
  -- The errand that asks settles the sweep, so none of those after it asks.
  induction errands generalizing f s with
  | nil => exact ⟨Nat.zero_le 1, fun _ => rfl⟩
  | cons errand errands ih =>
    obtain ⟨e, w⟩ := errand
    obtain ⟨ask, asks⟩ := List.forall_mem_cons.mp asks
    have acts : f.Acts c e w := acts uses ask
    obtain ⟨s', after, grows⟩ := (acts.grows i).kept found
    obtain ⟨most, none⟩ := ih (acts.uses uses) asks after (grows.strategy.trans remote)
    change (f.entry e w :: ((f.act e w).2.run errands).1).countP (Entry.asks i) ≤ 1 ∧
      (s.Settled → (f.entry e w :: ((f.act e w).2.run errands).1).countP (Entry.asks i) = 0)
    cases asked : (f.entry e w).asks i with
    | true =>
      obtain ⟨fresh, settled⟩ := acts.once i s s' found after remote asked
      rw [List.countP_cons_of_pos asked, none settled]
      exact ⟨Nat.le_refl 1, fun before => absurd before fresh⟩
    | false =>
      rw [List.countP_cons_of_neg (by rw [asked]; exact Bool.false_ne_true)]
      exact ⟨most, fun before => none (grows.settled before)⟩

/-- Whatever is done, the calls are those of the errands one after the other, so each load that
succeeds is followed by the unloading of the same model before any other load. An errand that asks
makes the calls of one question, and returns the first fault among them; it looked for its base in
the repository first, unless its server is a remote one, which is asked once at most. -/
theorem leaves_nothing_loaded (c : Client) (f : Floor ι) (errands : List (Errand ι × World))
    (uses : f.Uses c) (asks : ∀ e ∈ errands, e.1.Uses c) :
    let run := f.run errands
    let made := run.1.flatMap Entry.made
    run.1.map Entry.errand = errands.map Prod.fst ∧
    run.2.calls = f.calls ++ made ∧ c.Bracketed f.calls none made ∧
    (∀ earlier entry later, run.1 = earlier ++ entry :: later →
      entry.before = f.calls ++ earlier.flatMap Entry.made ∧ entry.Accounted c f.members) ∧
    ∀ i s, (f.members i).server? = some s → s.strategy = .remote →
      run.1.countP (Entry.asks i) ≤ 1 := by
  refine ⟨errands_run f errands, calls_run uses asks, bracketed_run uses asks, ?_, ?_⟩
  · intro earlier entry later stands
    exact accounted_run uses asks stands
  · intro i s found remote
    exact (once_run uses asks found remote).1

/-- A server that refuses the first load, the second question and the unloading after that. -/
def moody : Client :=
  Script.client
    { refuseLoad := [true], refuseUnload := [true], refuseConfig := [false, true],
      config := [("backend", .text "onnx")] }

def onMoody : Resources where
  plan := { keepLoaded := true, retries := 3, batchSize := ⟨1, 2⟩, instances := ⟨1, 1⟩ }
  repository := Repository.ofConfigs []
  client := some moody

/-- A sweep of a remote server, one that walks and a search. -/
def three : Fin 3 → Member
  | 0 => .server (ServerSweep.of onMoody { name := "r" } .remote false)
  | 1 =>
    let ladder : Strategy := .ladder (Ladder.ofPlan onMoody.plan false)
    .server (ServerSweep.of onMoody { name := "m" } ladder true)
  | 2 => .search (Search.ofPlan onMoody { name := "n" } true ⟨0⟩ {}).1

/-- The walking sweep is refused by the server and then finds its base in the repository. -/
def rounds : List (Errand (Fin 3) × World) :=
  let empty := Repository.ofConfigs []
  let full := Repository.ofConfigs [("m", [("backend", .text "onnx")])]
  [(.base onMoody "a", {}), (.pull 0 empty, {}), (.pull 1 empty, {}), (.pull 1 full, {}),
    (.feed 1 [none], {}), (.pull 2 empty, {}), (.pull 0 empty, {})]

theorem leaves_nothing_loaded_three :
    let f : Floor (Fin 3) := ⟨three, []⟩
    f.Uses moody ∧ (∀ e ∈ rounds, e.1.Uses moody) ∧
    let run := f.run rounds
    run.1.map Entry.made =
      [[.load "a"], [.config "r" 3], [.load "m", .config "m" 3, .unload "m"], [], [],
        [.load "n", .config "n" 3, .unload "n"], []] ∧
    run.1.map Entry.fault =
      [some (.control (.loadFailed "a" "load refused")), none,
        some (.control (.configUnavailable "m" 3)), none, none, none, none] ∧
    moody.Bracketed [] none (run.1.flatMap Entry.made) ∧
    (∀ entry ∈ run.1, entry.Accounted moody three) ∧
    run.1.countP (Entry.asks 0) ≤ 1 := by
  intro f
  have uses : f.Uses moody := by
    intro i s found other asked
    match i with
    | 0 | 1 | 2 =>
      cases found
      exact (Option.some.inj asked).symm
  have asks : ∀ e ∈ rounds, e.1.Uses moody := by
    have held : onMoody.Uses moody := fun other asked => (Option.some.inj asked).symm
    simp [rounds, Errand.Uses, held]
  obtain ⟨-, -, bracketed, entries, once⟩ := leaves_nothing_loaded moody f rounds uses asks
  refine ⟨uses, asks, by decide +kernel, by decide +kernel, bracketed, ?_, ?_⟩
  · intro entry here
    obtain ⟨earlier, later, stands⟩ := List.append_of_mem here
    exact (entries earlier entry later stands).2
  · exact once 0 (ServerSweep.of onMoody { name := "r" } .remote false) rfl rfl

end Floor
end ServingSweep
