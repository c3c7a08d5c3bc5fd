import HaloMesh.Proofs.ExchangePath
import HaloMesh.Proofs.GroupMeetings

/-! The sum over a group as one meeting of its members. Each of them ends with the values of all members added up in the
order of the group. -/

namespace HaloMesh.Transport.Communicator
open Meeting Program

variable {α : Type} [Scalar α]

/-- A receive that was posted for the values of another member. -/
def posted (me tag : Int) (own : Array α) (number : Int → Nat) (r : Int) : Request α :=
  { duty := .collect ⟨r, me, tag⟩ (number r), buffer := own.map fun _ => 0 }

theorem exchangeAll_path (e : Endpoint) (own : Array α) (tag : Int) (number : Int → Nat) {ranks : List Int}
    (reach : ∀ r ∈ ranks, e.reaches r = true) :
    Path (exchangeAll e own tag ranks) (asks tag e.rank own number (others e.rank ranks))
      (.finished (List.replicate (others e.rank ranks).length settled,
        (others e.rank ranks).map (posted e.rank tag own number))) := by
  induction ranks with
  | nil => exact .here _
  | cons r rest ih =>
    have later := ih fun other member => reach other (List.mem_cons_of_mem _ member)
    by_cases own_ : r = e.rank
    · have skip : others e.rank (r :: rest) = others e.rank rest := by simp [others, own_]
      rw [exchangeAll, if_pos own_, skip]
      exact later
    · have kept : others e.rank (r :: rest) = r :: others e.rank rest := by simp [others, own_]
      have known := reach r List.mem_cons_self
      rw [exchangeAll, if_neg own_, kept, Endpoint.send, if_pos known, Endpoint.receive, if_pos known]
      have all := later.bind_finished (f := fun asked => .finished
        (settled :: asked.1, posted e.rank tag own number r :: asked.2)) (.here _)
      rw [List.append_nil] at all
      exact .post (.claim (number r) all)

/-- Every member's values are waited for once, and come in the length of the own ones. -/
theorem waitEach_posted (me tag : Int) (own : Array α) (number : Int → Nat) (theirs : Int → Array α) {ranks : List Int}
    (sizes : ∀ r ∈ ranks, (theirs r).size = own.size) (sent : Nat) :
    Path (waitEach (ranks.map (posted me tag own number) ++ List.replicate sent settled)) (hears tag me theirs number ranks)
      (.finished (ranks.map (fun r => { posted me tag own number r with consumed := true, buffer := theirs r }) ++
        List.replicate sent { (settled : Request α) with consumed := true }, [])) := by
  induction ranks with
  | nil =>
    rw [List.map_nil, List.nil_append, Mesh.waitEach_settled]
    exact .here _
  | cons r rest ih =>
    have later := ih fun other member => sizes other (List.mem_cons_of_mem _ member)
    have fits : (theirs r).size = (posted me tag own number r).buffer.size :=
      (sizes r List.mem_cons_self).trans (Array.size_map ..).symm
    have waited : Path (posted me tag own number r).wait [.receive ⟨r, me, tag⟩ (number r) (some (theirs r))]
        (.finished ({ posted me tag own number r with consumed := true, buffer := theirs r }, none)) := by
      refine .receive (some (theirs r)) ?_
      change Path (if (theirs r).size = (posted me tag own number r).buffer.size then _ else _) _ _
      rw [if_pos fits]
      exact .here _
    exact (Mesh.waitEach_cons_path _ _ _).mpr ⟨_, _, _, _, rfl, waited, later, rfl⟩

omit [Scalar α] in
theorem inOrder_others (me : Int) (theirs : Int → Array α) (ranks : List Int) :
    inOrder me (theirs me) ranks ((others me ranks).map theirs) = ranks.map theirs := by
  induction ranks with
  | nil => rfl
  | cons r rest ih =>
    by_cases own : r = me
    · subst own
      have skip : others r (r :: rest) = others r rest := by simp [others]
      rw [skip, inOrder.eq_def]
      simp only [↓reduceIte, List.map_cons, ih]
    · have kept : others me (r :: rest) = r :: others me rest := by simp [others, own]
      rw [kept, List.map_cons, inOrder.eq_def]
      simp only [own, ↓reduceIte, ih, List.map_cons]

/-- A member's part in a sum over its group is one meeting. -/
theorem allReduceSum_path (c : Communicator) (theirs : Int → Array α) (tag : Int) (number : Int → Nat)
    (reach : ∀ r ∈ c.ranks, c.endpoint.reaches r = true)
    (sizes : ∀ r ∈ c.ranks, (theirs r).size = (theirs c.endpoint.rank).size) :
    Path (c.allReduceSum (theirs c.endpoint.rank) tag)
      (asks tag c.endpoint.rank (theirs c.endpoint.rank) number (others c.endpoint.rank c.ranks) ++
        hears tag c.endpoint.rank theirs number (others c.endpoint.rank c.ranks))
      (.finished (.ok (orderedSum (theirs c.endpoint.rank).size (c.ranks.map theirs)))) := by
  have fit (r : Int) (member : r ∈ others c.endpoint.rank c.ranks) : (theirs r).size = (theirs c.endpoint.rank).size :=
    sizes r (mem_others.mp member).1
  have waited := waitEach_posted c.endpoint.rank tag (theirs c.endpoint.rank) number theirs fit
    (others c.endpoint.rank c.ranks).length
  refine (exchangeAll_path c.endpoint (theirs c.endpoint.rank) tag number reach).bind_finished ?_
  rw [← List.append_nil (hears tag c.endpoint.rank theirs number (others c.endpoint.rank c.ranks))]
  refine waited.bind_finished ?_
  have received : (((others c.endpoint.rank c.ranks).map fun r =>
      { posted c.endpoint.rank tag (theirs c.endpoint.rank) number r with consumed := true, buffer := theirs r }) ++
        List.replicate (others c.endpoint.rank c.ranks).length { (settled : Request α) with consumed := true }).take
          ((others c.endpoint.rank c.ranks).map (posted c.endpoint.rank tag (theirs c.endpoint.rank) number)).length =
      (others c.endpoint.rank c.ranks).map fun r =>
        { posted c.endpoint.rank tag (theirs c.endpoint.rank) number r with consumed := true, buffer := theirs r } :=
    List.take_left' (by rw [List.length_map, List.length_map])
  simp only [received, List.map_map]
  change Path (Program.finished (Except.ok (orderedSum _ (inOrder c.endpoint.rank (theirs c.endpoint.rank) c.ranks
    ((others c.endpoint.rank c.ranks).map theirs))))) _ _
  rw [inOrder_others]
  exact .here _

private theorem foldl_zipWith {n : Nat} {values : List (Array α)} (sizes : ∀ v ∈ values, v.size = n) {start : Array α}
    (size : start.size = n) :
    (values.foldl (fun (sum : Array α) v => Array.zipWith (· + ·) sum v) start).size = n ∧ ∀ k < n,
      (values.foldl (fun (sum : Array α) v => Array.zipWith (· + ·) sum v) start)[k]? =
        some (values.foldl (fun s v => s + (v[k]?).getD 0) ((start[k]?).getD 0)) := by
  induction values generalizing start with
  | nil =>
    refine ⟨size, fun k inside => ?_⟩
    rw [List.foldl_nil, List.foldl_nil, Array.getElem?_eq_getElem (size ▸ inside)]
    rfl
  | cons v rest ih =>
    have fits : v.size = n := sizes v List.mem_cons_self
    obtain ⟨whole, places⟩ := ih (fun w later => sizes w (List.mem_cons_of_mem _ later))
      (show (Array.zipWith (· + ·) start v).size = n by rw [Array.size_zipWith, size, fits, Nat.min_self])
    refine ⟨whole, fun k inside => ?_⟩
    rw [List.foldl_cons, List.foldl_cons, places k inside, Array.getElem?_zipWith,
      Array.getElem?_eq_getElem (size ▸ inside), Array.getElem?_eq_getElem (fits ▸ inside)]
    rfl

theorem orderedSum_size {values : List (Array α)} {n : Nat} (sizes : ∀ v ∈ values, v.size = n) :
    (orderedSum n values).size = n :=
  (foldl_zipWith sizes (by simp)).1

/-- The sum in one place is that of what the members have there. -/
theorem getElem?_orderedSum {values : List (Array α)} {n k : Nat} (sizes : ∀ v ∈ values, v.size = n) (inside : k < n) :
    (orderedSum n values)[k]? = some (values.foldl (fun s v => s + (v[k]?).getD 0) 0) := by
  have zero : (((List.replicate n (0 : α)).toArray)[k]?).getD 0 = 0 := by simp [inside]
  rw [orderedSum, (foldl_zipWith sizes (by simp)).2 k inside, zero]

end HaloMesh.Transport.Communicator
