import CodexRouter.Lib.Index

set_option autoImplicit false

/-! # The worker registry

`router/src/core/worker_registry.rs`: the workers of the router by id, with indexes by URL, model,
type and connection mode. A worker is an object, with the data its trait methods return; the ids
are drawn one after another, as the UUIDs of the source are never drawn twice.
-/

namespace CodexRouter.Registry

open Lib

inductive WorkerType
  | regular
  | prefill (bootstrapPort : Option Nat)
  | decode
  deriving DecidableEq

inductive ConnectionMode
  | http
  deriving DecidableEq

/-- A worker object: `object` tells two allocations apart. -/
structure Worker where
  object : Nat
  url : String
  labels : List (String × String)
  workerType : WorkerType
  connectionMode : ConnectionMode
  deriving DecidableEq

def Worker.modelId (w : Worker) : String :=
  ((w.labels.find? fun e => e.1 = "model_id").map Prod.snd).getD "unknown"

abbrev WorkerId := Nat

structure WorkerRegistry where
  workers : Table WorkerId Worker
  modelWorkers : Table String (List WorkerId)
  modelIndex : Table String (List Worker)
  typeWorkers : Table WorkerType (List WorkerId)
  connectionWorkers : Table ConnectionMode (List WorkerId)
  urlToId : Table String WorkerId
  /-- The ids drawn so far are the numbers below this one. -/
  issued : Nat

namespace WorkerRegistry

def new : WorkerRegistry :=
  ⟨Table.empty, Table.empty, Table.empty, Table.empty, Table.empty, Table.empty, 0⟩

def register (r : WorkerRegistry) (worker : Worker) : WorkerId × WorkerRegistry :=
  let (workerId, issued) :=
    match r.urlToId.get? worker.url with
    -- a URL that is known keeps its id, also when the worker is another one
    | some existingId => (existingId, r.issued)
    | none => (r.issued, r.issued + 1)
  (workerId,
    { workers := r.workers.insert workerId worker
      modelWorkers := Index.push r.modelWorkers worker.modelId workerId
      modelIndex := Index.push r.modelIndex worker.modelId worker
      typeWorkers := Index.push r.typeWorkers worker.workerType workerId
      connectionWorkers := Index.push r.connectionWorkers worker.connectionMode workerId
      urlToId := r.urlToId.insert worker.url workerId
      issued })

def remove (r : WorkerRegistry) (workerId : WorkerId) : Option Worker × WorkerRegistry :=
  match r.workers.get? workerId with
  | none => (none, r)
  | some worker =>
    (some worker,
      { workers := r.workers.erase workerId
        modelWorkers := Index.retain r.modelWorkers worker.modelId fun id => id ≠ workerId
        -- this index holds the workers themselves and drops them by URL
        modelIndex := Index.retain r.modelIndex worker.modelId fun w => w.url ≠ worker.url
        typeWorkers := Index.retain r.typeWorkers worker.workerType fun id => id ≠ workerId
        connectionWorkers :=
          Index.retain r.connectionWorkers worker.connectionMode fun id => id ≠ workerId
        urlToId := r.urlToId.erase worker.url
        issued := r.issued })

def removeByUrl (r : WorkerRegistry) (url : String) : Option Worker × WorkerRegistry :=
  match r.urlToId.get? url with
  | some workerId => remove { r with urlToId := r.urlToId.erase url } workerId
  | none => (none, r)

def get (r : WorkerRegistry) (workerId : WorkerId) : Option Worker := r.workers.get? workerId

/-- The workers of a list of ids. -/
def getAllOf (r : WorkerRegistry) (ids : List WorkerId) : List Worker := ids.filterMap r.get

def getByModel (r : WorkerRegistry) (modelId : String) : List Worker :=
  r.getAllOf (Index.members r.modelWorkers modelId)

def getByModelFast (r : WorkerRegistry) (modelId : String) : List Worker :=
  Index.members r.modelIndex modelId

end WorkerRegistry

/-! ## Calls -/

inductive Call
  | register (worker : Worker)
  | remove (workerId : WorkerId)
  | removeByUrl (url : String)

def WorkerRegistry.apply (r : WorkerRegistry) : Call → WorkerRegistry
  | .register worker => (r.register worker).2
  | .remove workerId => (r.remove workerId).2
  | .removeByUrl url => (r.removeByUrl url).2

end CodexRouter.Registry
