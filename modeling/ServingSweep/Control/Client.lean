import ServingSweep.World

/-!
# Model servers

A client asks a running server for the configuration that it uses for a model.
`fetch` can load the model for the time of the question; it then unloads it again,
also when the question failed, and the fault of the question stands above that of
the unloading.
-/

namespace ServingSweep

/-- A model server. Each answer may depend on the calls made before. -/
structure Client where
  load : List Call → String → Except ControlFault Unit
  unload : List Call → String → Except ControlFault Unit
  config : List Call → String → UInt32 → Except ControlFault Config
  /-- What the server itself reports of a call. -/
  reports : Call → List Event := fun _ => []

namespace Client

def noted (c : Client) (w : World) (call : Call) : World :=
  (w.called call).sayAll (c.reports call)

/-! ### Single calls -/

def loading (c : Client) (model : String) (w : World) : Except ControlFault Unit × World :=
  (c.load w.calls model, c.noted w (.load model))

def unloading (c : Client) (model : String) (w : World) : Except ControlFault Unit × World :=
  (c.unload w.calls model, c.noted w (.unload model))

def asking (c : Client) (model : String) (retries : UInt32) (w : World) :
    Except ControlFault Config × World :=
  let noted := c.noted w (.config model retries)
  match c.config w.calls model retries with
  | .error fault => (.error fault, noted)
  | .ok config => (.ok config, noted.say (.configReported model))

/-! ### The whole question -/

/-- What is answered when the model was unloaded after the question. -/
def settle (model : String) (answer : Except ControlFault Config)
    (unloaded : Except ControlFault Unit) (w : World) : Except ControlFault Config × World :=
  match answer, unloaded with
  | .ok config, .ok () => (.ok config, w)
  | .ok _, .error fault => (.error fault, w)
  | .error fault, .ok () => (.error fault, w)
  | .error fault, .error second => (.error fault, w.say (.unloadFailed model second))

def fetchLoaded (c : Client) (model : String) (retries : UInt32) (w : World) :
    Except ControlFault Config × World :=
  match c.loading model w with
  | (.error fault, w) => (.error fault, w)
  | (.ok (), w) =>
    let (answer, w) := c.asking model retries w
    let (unloaded, w) := c.unloading model w
    settle model answer unloaded w

/-- The configuration the server uses for a model. With `reload` the model is
loaded for the time of the question. -/
def fetch (c : Client) (model : String) (retries : UInt32) (reload : Bool) (w : World) :
    Except ControlFault Config × World :=
  if reload then c.fetchLoaded model retries w else c.asking model retries w

end Client

end ServingSweep
