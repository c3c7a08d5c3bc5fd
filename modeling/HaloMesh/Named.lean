/-! Lists of named things, each name at most once. -/

namespace HaloMesh.Named

variable {β : Type}

/-- Gives a name a new meaning, in place if it had one. -/
def assign (name : String) (value : β) : List (String × β) → List (String × β)
  | [] => [(name, value)]
  | entry :: rest =>
    if entry.1 = name then (name, value) :: rest else entry :: assign name value rest

def find? (entries : List (String × β)) (name : String) : Option β :=
  (entries.find? fun e => e.1 = name).map Prod.snd

/-- Of neighbours with one name the last is kept. -/
def keepLast : List (String × β) → List (String × β)
  | first :: second :: rest =>
    if first.1 = second.1 then keepLast (second :: rest) else first :: keepLast (second :: rest)
  | entries => entries

/-- The entries in the order of their names. Of several with one name the last counts. -/
def sorted (entries : List (String × β)) : List (String × β) :=
  keepLast (entries.mergeSort fun a b => decide (a.1 ≤ b.1))

end HaloMesh.Named
