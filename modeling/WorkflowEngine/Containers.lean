import WorkflowEngine.Storage.Work

/-!
# Containers

The store of a mode is opened once and then kept. A container is built anew only if none is kept for
its mode or if this is demanded; one that cannot be built leaves what is kept as it is.
-/

namespace WorkflowEngine.Container

/-- Notes a remark on containers. -/
def remark (level : Level) (message : String) : Work Unit := Work.remark level "bootstrap" message

/-- Builds the container of a mode and keeps it. -/
def build (mode : String) : Work Container := do
  remark .info ("Building ServiceContainer for mode=" ++ mode)
  let backend ← Work.ofAttempt ((← get).settings.storeOf mode)
  remark .debug ("Storage initialized: " ++ backend.name)
  let container : Container := ⟨(← get).built, mode, backend⟩
  modify fun w =>
    { w with built := w.built + 1, containers := Entries.put mode container w.containers }
  remark .info ("ServiceContainer built and cached for " ++ mode)
  pure container

/-- The container of a mode, of the mode of the settings if none is given. -/
def obtain (mode : String) (force : Bool) : Work Container := do
  let w ← get
  let mode := if mode.isEmpty then w.settings.mode else mode
  match if force then none else w.containers.lookup mode with
  | some container =>
    remark .debug ("Returning cached container for " ++ mode)
    pure container
  | none => build mode

/-- Drops all containers that are kept. -/
def clear : Work Unit := do
  modify fun w => { w with containers := [] }
  remark .debug "Container cache cleared"

/-- Lets the container of a mode serve what comes next. -/
def serve (mode : String) : Work Container := do
  let container ← obtain mode false
  modify fun w => { w with backend := container.backend }
  pure container

end WorkflowEngine.Container
