import HaloMesh.Transport.Program

/-! Ranks that run side by side over one mail box. A rank moves as soon as its next request
can be answered; a wait is given up only when no rank can move, so a message that is
going to be sent always arrives. -/

namespace HaloMesh.Transport

variable {μ β : Type}

/-- One rank of the list was answered, the others stand still. -/
inductive Progress : List (Program μ β) → List (Program μ β) → Prop where
  | here {p q : Program μ β} (rest : List (Program μ β)) (moved : Program.Child q p) :
    Progress (q :: rest) (p :: rest)
  | later (p : Program μ β) {rest rest' : List (Program μ β)} (moved : Progress rest' rest) :
    Progress (p :: rest') (p :: rest)

theorem progress_acc_cons {p : Program μ β} {rest : List (Program μ β)}
    (head : Acc Program.Child p) (tail : Acc Progress rest) : Acc Progress (p :: rest) := by
  induction head generalizing rest with
  | intro p _ headStep =>
    induction tail with
    | intro rest tailEnds tailStep =>
      refine ⟨_, fun | _, .here _ moved => ?_ | _, .later _ moved => ?_⟩
      · exact headStep _ moved ⟨rest, tailEnds⟩
      · exact tailStep _ moved

/-- Whatever rank moves at whatever time, all of them come to an end. -/
theorem progress_wf : WellFounded (@Progress μ β) := by
  refine ⟨fun ranks => ?_⟩
  induction ranks with
  | nil => exact ⟨_, fun _ less => nomatch less⟩
  | cons p rest ih => exact progress_acc_cons p.child_acc ih

instance : WellFoundedRelation (List (Program μ β)) := ⟨Progress, progress_wf⟩

/-- The move of the first rank that can make one. -/
def move? (box : MailBox μ) :
    (ranks : List (Program μ β)) → Option ({ next // Progress next ranks } × MailBox μ)
  | [] => none
  | p :: rest =>
    match stepped : p.step? box with
    | some (q, box') => some (⟨q :: rest, .here rest (Program.child_of_step? stepped)⟩, box')
    | none =>
      (move? box rest).map fun (⟨next, moved⟩, box') => (⟨p :: next, .later p moved⟩, box')

/-- The first wait, given up. -/
def giveUp? : (ranks : List (Program μ β)) → Option { next // Progress next ranks }
  | [] => none
  | p :: rest =>
    match expired : p.expire? with
    | some q => some ⟨q :: rest, .here rest (Program.child_of_expire? expired)⟩
    | none => (giveUp? rest).map fun ⟨next, moved⟩ => ⟨p :: next, .later p moved⟩

/-- Runs every rank to its end; the results stand in the order of the ranks. -/
def runAll (box : MailBox μ) (ranks : List (Program μ β)) : List β × MailBox μ :=
  match move? box ranks with
  | some (⟨next, _⟩, box') => runAll box' next
  | none =>
    match giveUp? ranks with
    | some ⟨next, _⟩ => runAll box next
    | none => (ranks.filterMap Program.result?, box)
termination_by ranks
decreasing_by all_goals assumption

end HaloMesh.Transport
