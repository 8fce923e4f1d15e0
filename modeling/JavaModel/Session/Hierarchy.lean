import JavaModel.Session

/-!
The classes above a class: its superclass and its interfaces, theirs in turn, nearest first.
-/

namespace JavaModel.Session

/-- The full name of the superclass, written or implicit. -/
def superclassName (c : Class) : Query (Option String) :=
  match c.superclass with
  | some r => do pure (some (← resolveRef r))
  | none => pure c.implicitSuperclass?

/-- The superclass, if it can be found. -/
def superclassOf (c : Class) : Query (Option Answer) := do
  match ← superclassName c with
  | some name => classNamed name
  | none => pure none

/-- The interfaces among references that can be found. -/
def findAll : List TypeRef → Query (List Answer)
  | [] => pure []
  | r :: rs => do
    let first ← classNamed (← resolveRef r)
    let rest ← findAll rs
    pure (first.toList ++ rest)

/-- The direct interfaces that can be found. -/
def interfacesOf (c : Class) : Query (List Answer) := findAll c.interfaces

/-- The superclass and the direct interfaces that can be found. -/
def directSupertypes (c : Class) : Query (List Answer) := do
  let above ← superclassOf c
  let interfaces ← interfacesOf c
  pure (above.toList ++ interfaces)

/-- The classes whose full names have not been seen, each once, and all names seen then. -/
def enqueue (seen : List String) : List Answer → List Answer × List String
  | [] => ([], seen)
  | a :: as =>
    if seen.contains a.found.fullName then enqueue seen as
    else
      let (rest, seen) := enqueue (a.found.fullName :: seen) as
      (a :: rest, seen)

/-- The loop over a queue of classes: the class at the front is listed, and the classes directly
above it whose full names have not been seen go to the end, until the queue is empty. There is no
outcome if it never is. -/
def walk (seen : List String) (queue : List Answer) (s : Session) :
    Option (List Answer × Session) :=
  match queue with
  | [] => some ([], s)
  | a :: queue => do
    let (above, s) := directSupertypes a.found s
    let (new, seen) := enqueue seen above
    let (found, s) ← s |>.walk seen (queue ++ new)
    some (a :: found, s)
partial_fixpoint

/-- All classes above a class, nearest first, each once, if there is an end to them. -/
def ancestors (c : Class) : Query (Option (List Answer)) := fun s =>
  let (above, t) := directSupertypes c s
  let (queue, seen) := enqueue [c.fullName] above
  match walk seen queue t with
  | some (found, t) => (some found, t)
  | none => (none, s)

/-- Whether a class has a full name or is below the class that has, if there is an end to the
classes above it. -/
def isA (c : Class) (fullName : String) : Query (Option Bool) := do
  if c.fullName = fullName then pure (some true)
  else
    let above ← ancestors c
    pure (above.map fun as => as.any fun a => a.found.fullName = fullName)

end JavaModel.Session
