/-!
# Scripts

Work that leaves some of its steps to a host: it asks for a step and goes on with the reply. What
replies there are depends on what was asked.
-/

namespace PlanArchive.Coding

inductive Script (Request : Type) (Reply : Request → Type) (α : Type)
  | done (a : α)
  | ask (request : Request) (next : Reply request → Script Request Reply α)

namespace Script

variable {Request : Type} {Reply : Request → Type} {α β : Type}

def bind (script : Script Request Reply α) (more : α → Script Request Reply β) :
    Script Request Reply β :=
  match script with
  | .done a => more a
  | .ask request next => .ask request fun reply => (next reply).bind more

instance : Monad (Script Request Reply) where
  pure := .done
  bind := bind

/-- Asks, and is done with the reply. -/
def request (request : Request) : Script Request Reply (Reply request) := .ask request .done

end Script

end PlanArchive.Coding
