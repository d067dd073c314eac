-- SUMMARY: The devices of a program and the listeners attached to them: who gets a record, and the end of a cycle.
import DrmUsage.Gpu
import DrmUsage.Instant
import DrmUsage.Logged
import DrmUsage.Pool
import DrmUsage.Text.Source
import DrmUsage.Usage

/-!
# The hub

Devices are shared: the backend that found one, the listener attached to it and
the caller all mean the same device. The hub holds the devices in a pool, and
everyone else holds handles.

A record is offered to the listeners in the order in which they were attached,
until one accepts it. A reader uses up the source that it is handed, so each
offer starts from a source of its own of the whole record, and from the usage as
the caller gave it: a listener that rejects leaves no trace in either. What it
does to its device stays.
-/

namespace DrmUsage

/-! ## Listeners -/

/-- What came of offering a record: whether it was accepted, the usage as the
reader left it, and the state that the reader could change. -/
structure Outcome (σ : Type) where
  accepted : Bool
  usage : Usage
  state : σ
deriving DecidableEq, Repr

/-- The outcome seen from another state. -/
def Outcome.map {σ τ : Type} (f : σ → τ) (o : Outcome σ) : Outcome τ :=
  { o with state := f o.state }

/-- A record turned down without a trace. -/
def Outcome.rejected {σ : Type} (usage : Usage) (state : σ) : Outcome σ := ⟨false, usage, state⟩

/-- What came of handing a source to a reader: the outcome, and what is left of
the source. -/
structure ReadOutcome (σ : Type) extends Outcome σ where
  rest : Text.Source
deriving DecidableEq, Repr

/-- The outcome seen from another state. -/
def ReadOutcome.map {σ τ : Type} (f : σ → τ) (o : ReadOutcome σ) : ReadOutcome τ :=
  ⟨o.toOutcome.map f, o.rest⟩

/-- Reads a record for one device at an instant. -/
abbrev Reader (δ : Type) := Instant → Text.Source → Usage → δ → Logged (ReadOutcome δ)

/-- A reader and the device that it reads records for. -/
structure Listener (δ : Type) where
  device : Handle
  reader : Reader δ

namespace Listener

variable {δ : Type}

/-- Hands a source to a listener. Without its device nothing is accepted, and
nothing read. -/
def offer (l : Listener δ) (now : Instant) (source : Text.Source) (usage : Usage)
    (pool : Pool δ) : Logged (ReadOutcome (Pool δ)) :=
  match pool.get? l.device with
  | none => pure ⟨.rejected usage pool, source⟩
  | some d => (·.map (pool.set l.device)) <$> l.reader now source usage d

/-- Offers a record to a listener from a source made for it. -/
def offerRecord (l : Listener δ) (now : Instant) (record : String) (usage : Usage)
    (pool : Pool δ) : Logged (Outcome (Pool δ)) :=
  (·.toOutcome) <$> l.offer now (.ofText record) usage pool

variable {l : Listener δ} {pool : Pool δ}

theorem offerRecord_of_none (h : pool.get? l.device = none) (now : Instant) (record : String)
    (usage : Usage) : l.offerRecord now record usage pool = pure (.rejected usage pool) := by
  unfold offerRecord offer
  rw [h, map_pure]

/-- What the reader leaves of its source is gone. -/
theorem offerRecord_of_some {d : δ} (h : pool.get? l.device = some d) (now : Instant)
    (record : String) (usage : Usage) :
    l.offerRecord now record usage pool =
      (·.map (pool.set l.device)) <$> (·.toOutcome) <$>
        l.reader now (.ofText record) usage d := by
  unfold offerRecord offer
  rw [h, Functor.map_map, Functor.map_map]
  rfl

end Listener

/-! ## Hubs -/

/-- Names a listener by its place in the order of attachment. -/
structure ListenerId where
  index : Nat
deriving DecidableEq, Repr, Inhabited

/-- All devices of a program and the listeners attached to some of them. -/
structure Hub (δ : Type) where
  pool : Pool δ := {}
  listeners : List (Listener δ) := []

/-- What came of offering a record to all listeners: the one that accepted it,
the usage that it reported, and the hub afterwards. -/
structure Offered (δ : Type) where
  listener : Option ListenerId
  usage : Usage
  hub : Hub δ

namespace Hub

variable {δ : Type}

/-- A hub without devices. -/
def empty : Hub δ := {}

instance : Inhabited (Hub δ) := ⟨empty⟩

/-- The device under a handle. -/
def device? (hub : Hub δ) (h : Handle) : Option δ := hub.pool.get? h

/-- Takes a device in, without a listener. -/
def insert (hub : Hub δ) (d : δ) : Handle × Hub δ :=
  (hub.pool.next, { hub with pool := hub.pool.insert d })

/-- Changes the device under a handle. -/
def modify (hub : Hub δ) (h : Handle) (f : δ → δ) : Hub δ :=
  { hub with pool := hub.pool.modify h f }

/-- Attaches a listener to a device. -/
def attach (hub : Hub δ) (h : Handle) (reader : Reader δ) : ListenerId × Hub δ :=
  (⟨hub.listeners.length⟩, { hub with listeners := hub.listeners ++ [⟨h, reader⟩] })

/-- Takes a device in and attaches a listener to it. -/
def adopt (hub : Hub δ) (reader : Reader δ) (d : δ) : Handle × Hub δ :=
  let (h, hub) := hub.insert d
  (h, (hub.attach h reader).2)

/-- The number of listeners. -/
def size (hub : Hub δ) : Nat := hub.listeners.length

/-- Whether there is no listener. -/
def isEmpty (hub : Hub δ) : Bool := hub.listeners.isEmpty

/-- Detaches all listeners. The devices stay. -/
def detachAll (hub : Hub δ) : Hub δ := { hub with listeners := [] }

/-- The device to which a listener is attached. -/
def deviceOf? (hub : Hub δ) (id : ListenerId) : Option Handle :=
  hub.listeners[id.index]?.map (·.device)

/-- What stands under a handle after a change: the changed device under its own,
the same device as before under any other. -/
theorem device?_modify (hub : Hub δ) (h i : Handle) (f : δ → δ) :
    (hub.modify h f).device? i = if h = i then (hub.device? i).map f else hub.device? i :=
  Pool.get?_modify ..

/-- A device taken in stands under the handle that it got. -/
@[simp] theorem device?_insert (hub : Hub δ) (d : δ) :
    (hub.insert d).2.device? (hub.insert d).1 = some d := Pool.get?_insert_next ..

/-- Taking in another device takes nothing away. -/
theorem device?_insert_of_device? {hub : Hub δ} {h : Handle} {d : δ} (e : δ)
    (hd : hub.device? h = some d) : (hub.insert e).2.device? h = some d :=
  Pool.get?_insert_of_get? e hd

@[simp] theorem listeners_insert (hub : Hub δ) (d : δ) :
    (hub.insert d).2.listeners = hub.listeners := rfl

@[simp] theorem listeners_modify (hub : Hub δ) (h : Handle) (f : δ → δ) :
    (hub.modify h f).listeners = hub.listeners := rfl

@[simp] theorem device?_attach (hub : Hub δ) (h i : Handle) (reader : Reader δ) :
    (hub.attach h reader).2.device? i = hub.device? i := rfl

@[simp] theorem device?_detachAll (hub : Hub δ) (h : Handle) :
    hub.detachAll.device? h = hub.device? h := rfl

@[simp] theorem size_attach (hub : Hub δ) (h : Handle) (reader : Reader δ) :
    (hub.attach h reader).2.size = hub.size + 1 := by simp [attach, size]

@[simp] theorem size_detachAll (hub : Hub δ) : hub.detachAll.size = 0 := rfl

/-- A new listener is attached to the device that it was given. -/
@[simp] theorem deviceOf?_attach (hub : Hub δ) (h : Handle) (reader : Reader δ) :
    (hub.attach h reader).2.deviceOf? (hub.attach h reader).1 = some h := by
  simp [attach, deviceOf?]

/-! ## Records -/

/-- Hands a source to one listener. An unknown one accepts nothing. -/
def offerTo (hub : Hub δ) (id : ListenerId) (now : Instant) (source : Text.Source)
    (usage : Usage) : Logged (ReadOutcome (Hub δ)) :=
  match hub.listeners[id.index]? with
  | none => pure ⟨.rejected usage hub, source⟩
  | some l => (·.map fun pool => { hub with pool }) <$> l.offer now source usage hub.pool

/-- Offers a record to some listeners in turn and tells how many rejected it
before one accepted, with the usage that this one reported. -/
def offerInTurn (now : Instant) (record : String) (usage : Usage) :
    List (Listener δ) → Pool δ → Logged (Option (Nat × Usage) × Pool δ)
  | [], pool => pure (none, pool)
  | l :: later, pool => do
    let answer ← l.offerRecord now record usage pool
    if answer.accepted then
      pure (some (0, answer.usage), answer.state)
    else
      let (found, pool) ← offerInTurn now record usage later answer.state
      pure (found.map fun (rejections, reported) => (rejections + 1, reported), pool)

/-- Offers a record to every listener in the order of attachment until one
accepts it. -/
def offer (hub : Hub δ) (now : Instant) (record : String) (usage : Usage) :
    Logged (Offered δ) := do
  let (found, pool) ← offerInTurn now record usage hub.listeners hub.pool
  let hub := { hub with pool }
  match found with
  | some (index, reported) => pure ⟨some ⟨index⟩, reported, hub⟩
  | none => do
    Logged.note (.recordUnmatched usage.pid)
    pure ⟨none, usage, hub⟩

/-- Nobody is detached by what is offered. -/
theorem listeners_offerTo (hub : Hub δ) (id : ListenerId) (now : Instant)
    (source : Text.Source) (usage : Usage) :
    (hub.offerTo id now source usage).value.state.listeners = hub.listeners := by
  unfold offerTo
  cases hub.listeners[id.index]? <;> rfl

theorem listeners_offer (hub : Hub δ) (now : Instant) (record : String) (usage : Usage) :
    (hub.offer now record usage).value.hub.listeners = hub.listeners := by
  unfold offer
  simp only [Logged.value_bind]
  split <;> rfl

/-! ## Polling -/

variable [Gpu δ]

/-- Finds out what does not change about a device. -/
def identify (hub : Hub δ) (fs : Snapshot) (h : Handle) : Hub δ := hub.modify h (Gpu.identify fs)

/-- Measures a device again. -/
def measure (hub : Hub δ) (fs : Snapshot) (h : Handle) : Hub δ := hub.modify h (Gpu.measure fs)

/-- Measures several devices again. -/
def measureAll (hub : Hub δ) (fs : Snapshot) (handles : List Handle) : Hub δ :=
  handles.foldl (fun hub h => hub.measure fs h) hub

/-- Closes the cycle of one device. -/
def closeCycleOf (hub : Hub δ) (h : Handle) : Hub δ := hub.modify h Gpu.closeCycle

/-- Closes the cycle: once for every listener, that of its device. -/
def closeCycle (hub : Hub δ) : Hub δ :=
  hub.listeners.foldl (fun hub l => hub.closeCycleOf l.device) hub

end Hub

end DrmUsage
