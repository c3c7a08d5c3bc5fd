import Mathlib.Order.Compare
import Mathlib.Order.Defs.Unbundled
import HaloMesh.Proofs.OptionKeys

/-! The split that is chosen. The check of a split accepts exactly the splits in which all blocks are large enough and every
branch cut starts a block, although it looks at the last block only. Of these splits the best one is chosen, so that asking
for a split by number gains nothing but the choice. -/

namespace HaloMesh
open Index (Partition)

/-! The order of numbers, which decides between two splits. -/

section Order
open Float.Model (UnpackedFloat)

/-- Where a double precision number stands among the others: on which side of zero or at which end, and then by its
exponent and mantissa. -/
def Double.place : UnpackedFloat → Option (Int × Int × Int)
  | .notANumber => none
  | .infinity .negative => some (-2, 0, 0)
  | .finite .negative m e _ => some (-1, -e, -m)
  | .zero _ => some (0, 0, 0)
  | .finite .positive m e _ => some (1, e, m)
  | .infinity .positive => some (2, 0, 0)

theorem Double.lt_iff {a b : UnpackedFloat} : a.lt b = true ↔ ∃ p q, Double.place a = some p ∧ Double.place b = some q ∧
    (p.1 < q.1 ∨ p.1 = q.1 ∧ (p.2.1 < q.2.1 ∨ p.2.1 = q.2.1 ∧ p.2.2 < q.2.2)) := by
  have ascending (m n : Nat) (d e : Int) : (compare d e).then (compare m n) = .lt ↔ d < e ∨ d = e ∧ m < n := by
    rw [Ordering.then_eq_lt, compare_lt_iff_lt, compare_eq_iff_eq, Nat.compare_eq_lt]
  have descending (m n : Nat) (d e : Int) : (compare d e).then (compare m n) = .gt ↔ e < d ∨ d = e ∧ n < m := by
    rw [Ordering.then_eq_gt, compare_gt_iff_gt, compare_eq_iff_eq, Nat.compare_eq_gt]
  rcases a with s | _ | s | ⟨s, m, e, _⟩ <;> rcases b with t | _ | t | ⟨t, n, d, _⟩ <;> (try cases s) <;> (try cases t)
  all_goals dsimp only [UnpackedFloat.lt, UnpackedFloat.compare, Double.place]
  all_goals simp [ascending, descending]
  all_goals first | omega | decide

instance : IsStrictOrder Float (fun a b => Scalar.lt a b = true) where
  irrefl _ less := by
    obtain ⟨p, q, here, there, less⟩ := Double.lt_iff.mp (of_decide_eq_true (of_decide_eq_true less))
    obtain rfl : p = q := Option.some.inj (here.symm.trans there)
    omega
  trans _ _ _ first second := by
    obtain ⟨p, q, here, middle, less⟩ := Double.lt_iff.mp (of_decide_eq_true (of_decide_eq_true first))
    obtain ⟨q', r, middle', there, more⟩ := Double.lt_iff.mp (of_decide_eq_true (of_decide_eq_true second))
    obtain rfl : q = q' := Option.some.inj (middle.symm.trans middle')
    refine decide_eq_true (decide_eq_true (Double.lt_iff.mpr ⟨p, r, here, there, ?_⟩))
    omega

instance : IsStrictOrder Whole (fun a b => Scalar.lt a b = true) where
  irrefl _ less := absurd (of_decide_eq_true less) (Int.lt_irrefl _)
  trans _ _ _ first second := decide_eq_true (Int.lt_trans (of_decide_eq_true first) (of_decide_eq_true second))

variable {α : Type} [Scalar α] [IsStrictOrder α fun a b => Scalar.lt a b = true]

theorem Scalar.lt_self (a : α) : Scalar.lt a a = false :=
  Bool.eq_false_iff.mpr (Std.Irrefl.irrefl (r := fun a b : α => Scalar.lt a b = true) a)

theorem Scalar.lt_through {a b c : α} (first : Scalar.lt a b = true) (second : Scalar.lt b c = true) :
    Scalar.lt a c = true :=
  IsTrans.trans (r := fun a b : α => Scalar.lt a b = true) a b c first second

end Order

/-! Loops and checks that end with an answer. -/

namespace Outcome

variable {β γ σ : Type}

/-- A loop goes through if every round does, wherever it starts. -/
theorem forIn_total {items : List β} {init : σ} {body : β → σ → Outcome (ForInStep σ)} (Inv : List β → σ → Prop)
    (begins : Inv [] init) (round : ∀ done item rest s, done ++ item :: rest = items → Inv done s →
      ∃ s', body item s = .ok (.yield s') ∧ Inv (done ++ [item]) s') :
    ∃ last, forIn items init body = .ok last ∧ Inv items last := by
  suffices along : ∀ rest done s, done ++ rest = items → Inv done s →
      ∃ last, forIn rest s body = .ok last ∧ Inv items last from along items [] init rfl begins
  intro rest
  induction rest with
  | nil =>
    intro done s all inv
    rw [List.append_nil] at all
    exact ⟨s, rfl, all ▸ inv⟩
  | cons item rest ih =>
    intro done s all inv
    obtain ⟨s', passed, kept⟩ := round done item rest s all inv
    obtain ⟨last, later, ends⟩ := ih (done ++ [item]) s' (by simpa using all) kept
    refine ⟨last, ?_, ends⟩
    rw [List.forIn_cons, passed]
    exact later

theorem bind_total {r : Outcome β} {next : β → Outcome γ} {P : β → Prop} {Q : γ → Prop} (first : ∃ b, r = .ok b ∧ P b)
    (later : ∀ b, P b → ∃ c, next b = .ok c ∧ Q c) : ∃ c, (r >>= next) = .ok c ∧ Q c := by
  obtain ⟨b, rfl, holds⟩ := first
  exact later b holds

/-- An answer is a result or an error that is returned. -/
def Answered (r : Outcome β) : Prop := (∃ b, r = .ok b) ∨ ∃ e, r = .error (.returned e)

theorem Answered.bind {r : Outcome β} {next : β → Outcome γ} (first : r.Answered) (later : ∀ b, r = .ok b → (next b).Answered) :
    (r >>= next).Answered := by
  rcases first with ⟨b, rfl⟩ | ⟨e, rfl⟩
  · exact later b rfl
  · exact .inr ⟨e, rfl⟩

theorem Answered.guard {condition : Prop} [Decidable condition] {e : Error} {next : γ → Outcome β} {rest : Outcome β}
    (later : ¬ condition → rest.Answered) : (if condition then (fail e : Outcome γ) >>= next else rest).Answered := by
  split
  · exact .inr ⟨e, rfl⟩
  · exact later ‹_›

theorem Answered.forIn {items : List β} {init : σ} {body : β → σ → Outcome (ForInStep σ)}
    (round : ∀ item ∈ items, ∀ s, (body item s).Answered) : (forIn items init body).Answered := by
  induction items generalizing init with
  | nil => exact .inl ⟨init, rfl⟩
  | cons item rest ih =>
    rw [List.forIn_cons]
    refine (round item List.mem_cons_self init).bind fun step _ => ?_
    cases step with
    | done s => exact .inl ⟨s, rfl⟩
    | yield s => exact ih fun other later => round other (List.mem_cons_of_mem _ later)

end Outcome

variable {α : Type}

/-! The check. -/

namespace GridShape

/-- Whether the blocks of a split of `nxpe` by `count / nxpe` are large enough, and those that start at branch cuts exist. -/
structure Splits (g : GridShape α) (count nxpe : Nat) : Prop where
  columns : ∀ columns : Partition, columns.parts = nxpe → columns.total = g.mx → ∀ k < nxpe,
    max 1 g.mxg ≤ (columns.piece k).size
  rows : ∀ rows : Partition, rows.parts = count / nxpe → rows.total = g.ny → ∀ k < count / nxpe,
    max 1 g.myg ≤ (rows.piece k).size
  cuts : ∀ rows : Partition, rows.parts = count / nxpe → rows.total = g.ny → ∀ cut ∈ g.topology.cuts,
    ∃ k < count / nxpe, (rows.piece k).start = cut

/-- Whether the owner of a row can be found in every split over `count` ranks: there is storage for the pieces, and a
search for a row starts at one of them. -/
structure Searchable (g : GridShape α) (count : Nat) : Prop where
  stored : 2 * (count : Int) ≤ Index.storageLimit
  aimed : ∀ rows : Partition, rows.parts ∣ count → rows.total = g.ny → rows.Aimed

variable {g : GridShape α} {count nxpe : Nat}

/-- Where double precision numbers hold the product of ranks and rows every search starts at a piece. -/
theorem searchable_of_small (stored : 2 * (count : Int) ≤ Index.storageLimit) (some_ : 0 < count) (rows : 0 ≤ g.ny)
    (small : (count : Int) * g.ny ≤ (Nat.pow 2 53 : Nat)) : g.Searchable count := by
  refine ⟨stored, fun p divides total => Partition.Exact.aimed ?_⟩
  have fewer : (p.parts : Int) ≤ count := by exact_mod_cast Nat.le_of_dvd some_ divides
  calc (p.parts : Int) * p.total = p.parts * g.ny := by rw [total]
    _ ≤ count * g.ny := Int.mul_le_mul_of_nonneg_right fewer rows
    _ ≤ _ := small

theorem exists_partition {parts : Nat} (positive : 0 < parts) (stored : 2 * (parts : Int) ≤ Index.storageLimit)
    (total : Int) : ∃ p : Partition, Partition.make parts total = .ok p ∧ p.parts = parts ∧ p.total = total := by
  refine ⟨⟨parts, total, positive⟩, ?_, rfl, rfl⟩
  rw [Partition.make, dif_pos (by omega), if_neg (by omega)]
  rfl

/-- The partitions of a split are made, and the search for each cut ends at the piece that holds it. -/
theorem Searchable.partitions (searchable : g.Searchable count) (divides : nxpe ∣ count) (some_ : 0 < count)
    (proper : g.topology.Proper g.ny) : ∃ columns rows : Partition,
      (Partition.make nxpe g.mx = .ok columns ∧ columns.parts = nxpe ∧ columns.total = g.mx) ∧
      (Partition.make ((count : Int).tdiv nxpe) g.ny = .ok rows ∧ rows.parts = count / nxpe ∧ rows.total = g.ny) ∧
      ∀ cut ∈ g.topology.cuts, ∃ k < rows.parts, rows.owner cut = .ok (some k) := by
  have limit := searchable.stored
  have columns := Nat.le_of_dvd some_ divides
  have rows := Nat.div_le_self count nxpe
  obtain ⟨xs, madeColumns, across, wide⟩ := exists_partition (Nat.pos_of_dvd_of_pos divides some_) (by omega) g.mx
  obtain ⟨ys, madeRows, along, tall⟩ := exists_partition
    (Nat.div_pos columns (Nat.pos_of_dvd_of_pos divides some_)) (by omega) g.ny
  refine ⟨xs, ys, ⟨madeColumns, across, wide⟩, ⟨madeRows, along, tall⟩, fun cut member => ?_⟩
  obtain ⟨low, high⟩ := Topology.cut_range proper member
  obtain ⟨k, inside, after, before⟩ := Partition.exists_piece (p := ys) (by omega) (i := cut) (by omega) (by omega)
  have aimed := searchable.aimed ys (along ▸ Nat.div_dvd_of_dvd divides) tall
  exact ⟨k, inside, aimed.owner_eq (by omega) (by omega) inside after before⟩

theorem checkSplit_answered (searchable : g.Searchable count) (divides : nxpe ∣ count) (some_ : 0 < count)
    (proper : g.topology.Proper g.ny) : (g.checkSplit count nxpe).Answered := by
  obtain ⟨columns, rows, ⟨madeColumns, -⟩, ⟨madeRows, -⟩, owners⟩ := searchable.partitions divides some_ proper
  unfold checkSplit
  refine Outcome.Answered.bind (.inl ⟨columns, madeColumns⟩) fun columns _ => ?_
  refine Outcome.Answered.bind (.inl ⟨rows, madeRows⟩) fun rows' made => ?_
  obtain rfl : rows = rows' := Except.ok.inj (madeRows.symm.trans made)
  refine Outcome.Answered.guard fun _ => Outcome.Answered.guard fun _ => ?_
  refine Outcome.Answered.bind (Outcome.Answered.forIn fun cut member _ => ?_) fun _ _ => .inl ⟨_, rfl⟩
  obtain ⟨k, -, owned⟩ := owners cut member
  refine Outcome.Answered.bind (.inl ⟨_, owned⟩) fun _ _ => ?_
  exact Outcome.Answered.guard fun _ => .inl ⟨_, rfl⟩

/-- The sizes of all pieces are large enough if that of the last one is. -/
theorem lastPiece_least {p : Partition} {least : Int} (some_ : 1 ≤ least) :
    least ≤ p.share ↔ ∀ k < p.parts, least ≤ (p.piece k).size := by
  constructor
  · intro enough k _
    have nonneg : 0 ≤ p.total := by
      have := Partition.total_pos (p := p) (by omega)
      omega
    rw [Partition.piece_eq nonneg, Index.Piece.size]
    exact Int.le_trans enough (Partition.share_le_size nonneg k)
  · intro all
    rw [← Partition.lastPiece_size]
    exact all _ (Nat.sub_lt p.positive Nat.one_pos)

theorem checkSplit_iff (searchable : g.Searchable count) (divides : nxpe ∣ count) (some_ : 0 < count)
    (proper : g.topology.Proper g.ny) : g.checkSplit count nxpe = .ok () ↔ g.Splits count nxpe := by
  obtain ⟨columns, rows, ⟨madeColumns, across, wide⟩, ⟨madeRows, along, tall⟩, owners⟩ :=
    searchable.partitions divides some_ proper
  have unique {p p' : Partition} (parts : p.parts = p'.parts) (total : p.total = p'.total) : p = p' := by
    cases p
    cases p'
    cases parts
    cases total
    rfl
  have nonneg : 0 ≤ rows.total := by have := proper.1; omega
  constructor
  · intro passed
    obtain ⟨columns', rows', madeColumns', madeRows', enough, enough', aligned⟩ := checkSplit_ok proper passed
    obtain rfl : columns = columns' := Except.ok.inj (madeColumns.symm.trans madeColumns')
    obtain rfl : rows = rows' := Except.ok.inj (madeRows.symm.trans madeRows')
    refine ⟨fun p parts total k inside => ?_, fun p parts total k inside => ?_, fun p parts total cut member => ?_⟩
    · obtain rfl := unique (parts.trans across.symm) (total.trans wide.symm)
      exact (lastPiece_least (by omega)).mp enough k (by omega)
    · obtain rfl := unique (parts.trans along.symm) (total.trans tall.symm)
      exact (lastPiece_least (by omega)).mp enough' k (by omega)
    · obtain rfl := unique (parts.trans along.symm) (total.trans tall.symm)
      obtain ⟨k, inside, start⟩ := aligned cut member
      exact ⟨k, by omega, by rw [Partition.piece_eq nonneg, start]⟩
  · intro splits
    have enough := (lastPiece_least (by omega)).mpr (across ▸ splits.columns columns across wide)
    have enough' := (lastPiece_least (by omega)).mpr (along ▸ splits.rows rows along tall)
    simp only [checkSplit, Outcome.bind_eq_ok, Outcome.guard_eq_ok, Partition.lastPiece_size]
    refine ⟨columns, madeColumns, rows, madeRows, by omega, by omega, PUnit.unit, ?_, rfl⟩
    refine Exists.elim (Outcome.forIn_total (fun _ _ => True) trivial ?_) fun _ walked => walked.1
    intro done cut rest s all _
    have member : cut ∈ g.topology.cuts := by simp [← all]
    obtain ⟨k, inside, owned⟩ := owners cut member
    obtain ⟨k', inside', starts⟩ := splits.cuts rows along tall cut member
    have start : rows.bound k = cut := by
      obtain ⟨-, low, high⟩ := Partition.owner_sound owned
      rw [Partition.piece_eq nonneg] at starts
      have least := Partition.share_le_size nonneg k'
      obtain rfl := Partition.piece_unique nonneg low high (Int.le_of_eq starts) (by simp only at starts; omega)
      exact starts
    refine ⟨PUnit.unit, ?_, trivial⟩
    rw [owned]
    exact if_neg (by simp [Partition.piece_eq nonneg, start])

/-! The choice. -/

variable [Scalar α]

/-- The split that would make the blocks square. It need not be a whole number. -/
def idealSplit (g : GridShape α) (count : Nat) : α :=
  Scalar.sqrt (Scalar.ofInt g.mx * Scalar.ofInt count / Scalar.ofInt g.ny)

def distance (g : GridShape α) (count : Nat) (nxpe : Int) : α := Scalar.abs (Scalar.ofInt nxpe - g.idealSplit count)

/-- A split that divides the ranks and passes the check. -/
def Accepts (g : GridShape α) (count : Nat) (nxpe : Int) : Prop :=
  (count : Int).tmod nxpe = 0 ∧ g.checkSplit count nxpe = .ok ()

/-- No accepted split among some is nearer to the ideal one, and no smaller one is just as near. -/
def Best (g : GridShape α) (count : Nat) (among : Int → Prop) (nxpe : Int) : Prop :=
  among nxpe ∧ g.Accepts count nxpe ∧ ∀ other, among other → g.Accepts count other →
    Scalar.lt (g.distance count other) (g.distance count nxpe) = false ∧
      (g.distance count other = g.distance count nxpe → nxpe ≤ other)

/-- What the loop over the splits has kept of those it has seen. -/
def Kept (g : GridShape α) (count : Nat) (seen : List Int) : Option (Int × α) → Prop
  | none => ∀ i ∈ seen, ¬ g.Accepts count i
  | some (i, d) => d = g.distance count i ∧ g.Best count (· ∈ seen) i

theorem Kept.skip {seen : List Int} {best : Option (Int × α)} {i : Int} (kept : g.Kept count seen best)
    (refused : ¬ g.Accepts count i) : g.Kept count (seen ++ [i]) best := by
  cases best with
  | none =>
    intro j member
    rcases List.mem_append.mp member with earlier | last
    · exact kept j earlier
    · rwa [List.mem_singleton.mp last]
  | some found =>
    obtain ⟨same, member, accepted, least⟩ := kept
    refine ⟨same, List.mem_append_left _ member, accepted, fun j among accepted => ?_⟩
    rcases List.mem_append.mp among with earlier | last
    · exact least j earlier accepted
    · exact absurd (List.mem_singleton.mp last ▸ accepted) refused

theorem Kept.farther {seen : List Int} {i best : Int} {d : α} (kept : g.Kept count seen (some (best, d)))
    (later : ∀ j ∈ seen, j < i) (farther : Scalar.lt (g.distance count i) d = false) :
    g.Kept count (seen ++ [i]) (some (best, d)) := by
  obtain ⟨rfl, member, own, least⟩ := kept
  refine ⟨rfl, List.mem_append_left _ member, own, fun j among other => ?_⟩
  rcases List.mem_append.mp among with earlier | last
  · exact least j earlier other
  · rw [List.mem_singleton.mp last]
    exact ⟨farther, fun _ => Int.le_of_lt (later best member)⟩

section Nearest

variable [IsStrictOrder α fun a b => Scalar.lt a b = true] {seen : List Int} {i : Int} (accepted : g.Accepts count i)
include accepted

theorem Kept.first (kept : g.Kept count seen none) : g.Kept count (seen ++ [i]) (some (i, g.distance count i)) := by
  refine ⟨rfl, by simp, accepted, fun j among other => ?_⟩
  rcases List.mem_append.mp among with earlier | last
  · exact absurd other (kept j earlier)
  · rw [List.mem_singleton.mp last]
    exact ⟨Scalar.lt_self _, fun _ => Int.le_refl _⟩

theorem Kept.nearer {best : Int} {d : α} (kept : g.Kept count seen (some (best, d)))
    (nearer : Scalar.lt (g.distance count i) d = true) : g.Kept count (seen ++ [i]) (some (i, g.distance count i)) := by
  obtain ⟨rfl, -, -, least⟩ := kept
  refine ⟨rfl, by simp, accepted, fun j among other => ?_⟩
  rcases List.mem_append.mp among with earlier | last
  · obtain ⟨far, -⟩ := least j earlier other
    refine ⟨Bool.eq_false_iff.mpr fun less => ?_, fun same => ?_⟩
    · exact Bool.false_ne_true (far.symm.trans (Scalar.lt_through less nearer))
    · exact absurd (far.symm.trans (same ▸ nearer)) Bool.false_ne_true
  · rw [List.mem_singleton.mp last]
    exact ⟨Scalar.lt_self _, fun _ => Int.le_refl _⟩

end Nearest

theorem before_in_span {lo hi i j : Int} {done rest : List Int} (all : done ++ i :: rest = Index.span lo hi)
    (earlier : j ∈ done) : j < i := by
  have ascending : (Index.span lo hi).Pairwise (· < ·) := by
    refine List.pairwise_map.mpr (List.pairwise_lt_range.imp ?_)
    intro a b less
    omega
  rw [← all, List.pairwise_append] at ascending
  exact ascending.2.2 j earlier i List.mem_cons_self

/-- The loop over the splits ends with the best one, if there is one. -/
theorem chooseSplit_best [IsStrictOrder α fun a b => Scalar.lt a b = true] (answered : ∀ i : Int, 1 ≤ i → i ≤ count →
      (count : Int).tmod i = 0 → (g.checkSplit count i).Answered)
    (exist : ∃ i : Int, (1 ≤ i ∧ i ≤ count) ∧ g.Accepts count i) :
    ∃ c, g.chooseSplit count = .ok c ∧ g.Best count (fun i => 1 ≤ i ∧ i ≤ count) c := by
  refine Outcome.bind_total (P := fun s => g.Kept count (Index.span 1 count) s.1) (Outcome.forIn_total
    (fun seen (s : Option (Int × α) × List Error) => g.Kept count seen s.1) ?_ ?_) ?_
  · exact fun _ member => nomatch member
  · intro done i rest s all kept
    have range : 1 ≤ i ∧ i ≤ count := Index.mem_span.mp (by simp [← all])
    by_cases divides : (count : Int).tmod i = 0
    · rw [if_pos divides]
      rcases answered i range.1 range.2 divides with ⟨_, passed⟩ | ⟨e, refused⟩
      · have accepted : g.Accepts count i := ⟨divides, passed⟩
        rw [passed]
        obtain ⟨best, rejected⟩ := s
        cases best with
        | none => exact ⟨(some (i, g.distance count i), rejected), rfl, Kept.first accepted kept⟩
        | some found =>
          obtain ⟨b, d⟩ := found
          cases near : Scalar.lt (g.distance count i) d with
          | true => exact ⟨(some (i, g.distance count i), rejected), if_pos near, Kept.nearer accepted kept near⟩
          | false =>
            refine ⟨(some (b, d), rejected), if_neg (Bool.eq_false_iff.mp near), ?_⟩
            exact Kept.farther kept (fun j earlier => before_in_span all earlier) near
      · rw [refused]
        exact ⟨(s.1, s.2 ++ [e]), rfl, kept.skip fun accepted => nomatch refused.symm.trans accepted.2⟩
    · rw [if_neg divides]
      exact ⟨s, rfl, kept.skip fun accepted => divides accepted.1⟩
  · rintro ⟨best, rejected⟩ kept
    cases best with
    | none =>
      obtain ⟨i, range, accepted⟩ := exist
      exact absurd accepted (kept i (Index.mem_span.mpr range))
    | some found =>
      obtain ⟨-, member, accepted, least⟩ := kept
      exact ⟨found.1, rfl, Index.mem_span.mp member, accepted, fun j range => least j (Index.mem_span.mpr range)⟩

end GridShape

/-! Settings with a number of blocks in x, and without. -/

theorem Named.find?_assign {β : Type} (name key : String) (value : β) (entries : List (String × β)) :
    find? (assign name value entries) key = if name = key then some value else find? entries key := by
  induction entries with
  | nil => by_cases same : name = key <;> simp [assign, find?, same]
  | cons entry rest ih =>
    rw [assign]
    split
    next replaced =>
      by_cases same : name = key
      · simp [find?, same]
      · simp [find?, replaced, same]
    next kept =>
      unfold find? at ih ⊢
      rw [List.find?_cons, List.find?_cons]
      by_cases here : entry.1 = key
      · have other : name ≠ key := fun same => kept (here.trans same.symm)
        rw [decide_eq_true here, if_neg other]
      · rw [decide_eq_false here]
        exact ih

namespace Options

variable {o : Options α}

theorem path_nxpe : path "NXPE" = ["nxpe"] := by decide +kernel

theorem lowered_whole (n : Int) : (Setting.whole n : Setting α).lowered = .whole n := by simp [Setting.lowered]

theorem get?_set_nxpe (o : Options α) (n : Int) : (o.set "NXPE" (.whole n)).get? "NXPE" = some (.whole n) := by
  rw [get?, set, path_nxpe]
  simp only [place, follow?]
  rw [Named.find?_assign, if_pos rfl, lowered_whole]

/-- A number of blocks that was not set before is all that changes when it is set. -/
theorem sameBut_set (unset : o.isSet "NXPE" = false) (n : Int) : SameBut "NXPE" o (o.set "NXPE" (.whole n)) := by
  intro other apart
  have missing : Named.find? o.entries "nxpe" = none := by
    rw [isSet, get?, path_nxpe, follow?] at unset
    simpa using unset
  rw [path_nxpe] at apart
  rw [get?, get?, set, path_nxpe]
  simp only [place]
  cases steps : path other with
  | nil => rfl
  | cons first more =>
    cases more with
    | nil =>
      have different : "nxpe" ≠ first := fun same => apart (by rw [steps, same])
      rw [follow?, follow?, Named.find?_assign, if_neg different]
    | cons second rest =>
      simp only [follow?, Named.find?_assign]
      by_cases same : "nxpe" = first
      · rw [← same, missing, if_pos rfl, lowered_whole]
      · rw [if_neg same]

end Options

theorem Options.SameBut.transformName_eq [Scalar α] {o o' : Options α} (same : Options.SameBut "NXPE" o o') :
    transformName o = transformName o' := by
  rw [transformName, transformName, Options.text, Options.text, same "paralleltransform" (by decide +kernel)]

namespace GridShape

variable [Scalar α] {g : GridShape α} {count : Nat} {o : Options α}

theorem settleSplit_unset (unset : o.isSet "NXPE" = false) (nproc : Int) : g.settleSplit o nproc = g.chooseSplit nproc := by
  rw [settleSplit, unset]
  rfl

/-- A number of blocks that is asked for is taken exactly if it divides the ranks and passes the check. -/
theorem settleSplit_set {n : Nat} (fits : (n : Int) < Text.wordEnd) {c : Int} :
    g.settleSplit (o.set "NXPE" (.whole n)) count = .ok c ↔ c = n ∧ 1 ≤ n ∧ g.Accepts count n := by
  have asked : (o.set "NXPE" (.whole n)).isSet "NXPE" = true := by rw [Options.isSet, Options.get?_set_nxpe]; rfl
  have number : Index.wrap ((o.set "NXPE" (.whole (n : Int))).whole "NXPE" 0) = n := by
    rw [Options.whole, Options.get?_set_nxpe]
    exact Index.wrap_of_fits (by rw [Index.wordEnd_eq]; change _ ≤ (n : Int); omega) fits
  simp only [settleSplit, asked, number, if_true, Outcome.guard_eq_ok, Outcome.bind_eq_ok, pure, Except.pure,
    Except.ok.injEq, Accepts]
  constructor
  · rintro ⟨divides, _, passed, rfl⟩
    exact ⟨rfl, by omega, by omega, passed⟩
  · rintro ⟨rfl, positive, divides, passed⟩
    exact ⟨by omega, (), passed, rfl⟩

end GridShape

namespace Mesh

variable [Scalar α] {source : GridSource α} {o o' : Options α} {endpoint : Transport.Endpoint}

/-- Settings that describe the same grid, split and methods lead to the same mesh. It holds the settings it was read from. -/
theorem load_congr {g : GridShape α} {warnings : List String} (read : GridShape.read source o = .ok (g, warnings))
    (same : Options.SameBut "NXPE" o o') (settled : g.settleSplit o' endpoint.size = g.settleSplit o endpoint.size) :
    Mesh.load source o' endpoint = (fun p => ({ p.1 with options := o' }, p.2)) <$> Mesh.load source o endpoint := by
  obtain ⟨grid, methods⟩ := same.reads source
  simp only [Mesh.load, ← grid, ← methods, ← same.transformName_eq, read]
  change (g.settleSplit o' endpoint.size >>= _) = _ <$> (g.settleSplit o endpoint.size >>= _)
  rw [settled, map_bind]
  refine bind_congr fun nxpe => ?_
  simp only [map_bind]
  refine bind_congr fun xPart => bind_congr fun yPart => bind_congr fun xs => bind_congr fun ys => ?_
  refine bind_congr fun up => bind_congr fun down => bind_congr fun chosen => bind_congr fun _ => ?_
  split <;> rfl

end Mesh

namespace Layout

variable [Scalar α] {l : Layout α} {source : GridSource α} {o : Options α} {warnings : List String} {i : Nat}

/-- Where owners can be found, what can still fail does not depend on the split. -/
theorem loadBlock_succeeds (aimed : l.rows.Aimed) (inside : i < l.count) :
    (∃ r, l.loadBlock source o warnings i = .ok r) ↔
      (∃ p, Defaults.read o = .ok p ∧ checkDefaultWidths l.shape p.1 = .ok ()) ∧
        (transformName o = "identity" ∨ transformName o = "shifted") := by
  have links (up : Bool) : ∃ link, l.link i up = .ok link := makeLink_total aimed (row_lt inside) ..
  obtain ⟨above, madeUp⟩ := links true
  obtain ⟨below, madeDown⟩ := links false
  have methods {p : Defaults × List String} : ((Defaults.read o).mapError .inOptions).mapError Failure.returned = .ok p ↔
      Defaults.read o = .ok p := by
    cases Defaults.read o <;> simp [Except.mapError]
  simp only [loadBlock, Outcome.bind_eq_ok, Outcome.guard_eq_ok, Outcome.returned_eq_ok, methods, madeUp, madeDown,
    Except.ok.injEq, exists_eq_left', pure, Except.pure]
  constructor
  · rintro ⟨_, p, chosen, _, fits, known, -⟩
    exact ⟨⟨p, chosen, fits⟩, by tauto⟩
  · rintro ⟨⟨p, chosen, fits⟩, known⟩
    exact ⟨_, p, chosen, (), fits, by tauto, rfl⟩

end Layout

namespace GridShape

variable {g : GridShape α} {count : Nat}

theorem accepts_iff (searchable : g.Searchable count) (some_ : 0 < count) (proper : g.topology.Proper g.ny) {i : Int} :
    1 ≤ i ∧ i ≤ count ∧ g.Accepts count i ↔ ∃ d : Nat, i = d ∧ d ∣ count ∧ g.Splits count d := by
  constructor
  · rintro ⟨low, high, divides, passed⟩
    obtain ⟨d, rfl⟩ := Int.eq_ofNat_of_zero_le (show 0 ≤ i by omega)
    have whole : d ∣ count := Int.natCast_dvd_natCast.mp (Int.dvd_of_tmod_eq_zero divides)
    exact ⟨d, rfl, whole, (checkSplit_iff searchable whole some_ proper).mp passed⟩
  · rintro ⟨d, rfl, divides, splits⟩
    have positive := Nat.pos_of_dvd_of_pos divides some_
    have fewer := Nat.le_of_dvd some_ divides
    exact ⟨by omega, by omega, Int.tmod_eq_zero_of_dvd (Int.natCast_dvd_natCast.mpr divides),
      (checkSplit_iff searchable divides some_ proper).mpr splits⟩

variable [Scalar α]

theorem chooseSplit_splits (searchable : g.Searchable count) (some_ : 0 < count) (proper : g.topology.Proper g.ny) {c : Int}
    (chosen : g.chooseSplit count = .ok c) : ∃ d : Nat, c = d ∧ d ∣ count ∧ g.Splits count d := by
  obtain ⟨low, divides, passed⟩ := chooseSplit_ok chosen
  have high : c ≤ count := Int.le_of_dvd (by omega) (Int.dvd_of_tmod_eq_zero divides)
  exact (accepts_iff searchable some_ proper).mp ⟨low, high, divides, passed⟩

/-- If some split of the ranks is possible, the nearest one to the ideal split is chosen. -/
theorem chooseSplit_nearest [IsStrictOrder α fun a b => Scalar.lt a b = true] (searchable : g.Searchable count)
    (some_ : 0 < count) (proper : g.topology.Proper g.ny) (exist : ∃ d, d ∣ count ∧ g.Splits count d) :
    ∃ d : Nat, g.chooseSplit count = .ok d ∧ d ∣ count ∧ g.Splits count d ∧
      ∀ other : Nat, other ∣ count → g.Splits count other →
        Scalar.lt (g.distance count other) (g.distance count d) = false ∧
          (g.distance count other = g.distance count d → d ≤ other) := by
  have accepts {i : Int} := accepts_iff (i := i) searchable some_ proper
  obtain ⟨d, divides, splits⟩ := exist
  obtain ⟨low, high, accepted⟩ := accepts.mpr ⟨d, rfl, divides, splits⟩
  have answered (i : Int) (low : 1 ≤ i) (_ : i ≤ count) (divides : (count : Int).tmod i = 0) :
      (g.checkSplit count i).Answered := by
    obtain ⟨d, rfl⟩ := Int.eq_ofNat_of_zero_le (show 0 ≤ i by omega)
    exact checkSplit_answered searchable (Int.natCast_dvd_natCast.mp (Int.dvd_of_tmod_eq_zero divides)) some_ proper
  obtain ⟨c, chosen, -, -, nearest⟩ := chooseSplit_best answered ⟨d, ⟨low, high⟩, accepted⟩
  obtain ⟨d', rfl, divides', splits'⟩ := chooseSplit_splits searchable some_ proper chosen
  refine ⟨d', chosen, divides', splits', fun other within possible => ?_⟩
  obtain ⟨low, high, accepted⟩ := accepts.mpr ⟨other, rfl, within, possible⟩
  obtain ⟨far, least⟩ := nearest other ⟨low, high⟩ accepted
  exact ⟨far, fun same => by exact_mod_cast least same⟩

omit [Scalar α] in
theorem Searchable.word (searchable : g.Searchable count) (some_ : 0 < count) {d : Nat} (divides : d ∣ count) :
    (d : Int) < Text.wordEnd := by
  have stored := searchable.stored
  have fewer := Nat.le_of_dvd some_ divides
  have limit : Index.storageLimit = 35184372088832 := rfl
  rw [Index.wordEnd_eq]
  omega

/-- Some split can be asked for exactly if one is chosen without asking. -/
theorem settles_iff [IsStrictOrder α fun a b => Scalar.lt a b = true] {o : Options α} (unset : o.isSet "NXPE" = false)
    (searchable : g.Searchable count) (some_ : 0 < count) (proper : g.topology.Proper g.ny) :
    (∃ c, g.settleSplit o count = .ok c) ↔
      ∃ d : Nat, d ∣ count ∧ ∃ c, g.settleSplit (o.set "NXPE" (.whole d)) count = .ok c := by
  rw [settleSplit_unset unset]
  constructor
  · rintro ⟨c, chosen⟩
    obtain ⟨d, rfl, divides, splits⟩ := chooseSplit_splits searchable some_ proper chosen
    obtain ⟨low, -, accepted⟩ := (accepts_iff searchable some_ proper).mpr ⟨d, rfl, divides, splits⟩
    exact ⟨d, divides, d, (settleSplit_set (searchable.word some_ divides)).mpr ⟨rfl, by omega, accepted⟩⟩
  · rintro ⟨d, divides, c, settled⟩
    obtain ⟨-, -, accepted⟩ := (settleSplit_set (searchable.word some_ divides)).mp settled
    obtain ⟨d', chosen, -⟩ := chooseSplit_nearest searchable some_ proper
      ⟨d, divides, (checkSplit_iff searchable divides some_ proper).mp accepted.2⟩
    exact ⟨d', chosen⟩

end GridShape

namespace Mesh

variable [Scalar α] {source : GridSource α} {o : Options α} {count i : Nat}

theorem load_settles {r : Mesh α × List String} (loaded : Mesh.load source o ⟨i, count⟩ = .ok r) :
    ∃ g warnings c, GridShape.read source o = .ok (g, warnings) ∧ g.settleSplit o count = .ok c := by
  obtain ⟨⟨g, warnings⟩, read, rest⟩ := Outcome.bind_eq_ok.mp loaded
  obtain ⟨c, settled, -⟩ := Outcome.bind_eq_ok.mp rest
  exact ⟨g, warnings, c, read, settled⟩

/-- What a rank loads of a grid succeeds exactly if the split does, and then the settings that do not depend on it. -/
theorem load_succeeds {g : GridShape α} {warnings : List String} (read : GridShape.read source o = .ok (g, warnings))
    (searchable : g.Searchable count) (inside : i < count) : (∃ r, Mesh.load source o ⟨i, count⟩ = .ok r) ↔
      (∃ c, g.settleSplit o count = .ok c) ∧ (∃ p, Defaults.read o = .ok p ∧ checkDefaultWidths g p.1 = .ok ()) ∧
        (transformName o = "identity" ∨ transformName o = "shifted") := by
  have blocks {c : Int} (settled : g.settleSplit o count = .ok c) : (∃ r, Mesh.load source o ⟨i, count⟩ = .ok r) ↔
      (∃ p, Defaults.read o = .ok p ∧ checkDefaultWidths g p.1 = .ok ()) ∧
        (transformName o = "identity" ∨ transformName o = "shifted") := by
    obtain ⟨l, rfl, rfl, same⟩ := Layout.load_eq read settled
    rw [same i inside]
    exact Layout.loadBlock_succeeds (searchable.aimed _ (Dvd.intro_left _ rfl) l.allRows) inside
  constructor
  · rintro ⟨r, loaded⟩
    obtain ⟨g', warnings', c, read', settled⟩ := load_settles loaded
    cases read.symm.trans read'
    exact ⟨⟨c, settled⟩, (blocks settled).mp ⟨r, loaded⟩⟩
  · rintro ⟨⟨c, settled⟩, rest⟩
    exact (blocks settled).mpr rest

end Mesh

/-- A split passes the check exactly if its blocks are large enough and start at every branch cut. The choice succeeds exactly
if there is such a split that divides the ranks, and then is the best of them. So loading without a number of blocks in x
succeeds on a rank exactly if it does with one, and leads to the same mesh as with the number that is chosen. -/
theorem split_choice_exact [Scalar α] [IsStrictOrder α fun a b => Scalar.lt a b = true] (source : GridSource α)
    (options : Options α) {count : Nat} (some_ : 0 < count)
    (searchable : ∀ g warnings, GridShape.read source options = .ok (g, warnings) → g.Searchable count) :
    (∀ g warnings, GridShape.read source options = .ok (g, warnings) →
      (∀ d, d ∣ count → (g.checkSplit count d = .ok () ∧ g.Splits count d) ∨
        (∃ e, g.checkSplit count d = .error (.returned e)) ∧ ¬ g.Splits count d) ∧
      ((∃ c, g.chooseSplit count = .ok c) ↔ ∃ d, d ∣ count ∧ g.Splits count d) ∧
      ∀ c, g.chooseSplit count = .ok c → ∃ d : Nat, c = d ∧ d ∣ count ∧ g.Splits count d ∧
        ∀ other : Nat, other ∣ count → g.Splits count other →
          Scalar.lt (g.distance count other) (g.distance count d) = false ∧
            (g.distance count other = g.distance count d → d ≤ other)) ∧
    (options.isSet "NXPE" = false → ∀ i < count,
      ((∃ r, Mesh.load source options ⟨i, count⟩ = .ok r) ↔
        ∃ d : Nat, d ∣ count ∧ ∃ r, Mesh.load source (options.set "NXPE" (.whole d)) ⟨i, count⟩ = .ok r) ∧
      ∀ g warnings c, GridShape.read source options = .ok (g, warnings) → g.chooseSplit count = .ok c →
        Mesh.load source (options.set "NXPE" (.whole c)) ⟨i, count⟩ =
          (fun p => ({ p.1 with options := options.set "NXPE" (.whole c) }, p.2)) <$>
            Mesh.load source options ⟨i, count⟩) := by
  refine ⟨fun g warnings read => ?_, fun unset i inside => ⟨?_, fun g warnings c read chosen => ?_⟩⟩
  · have proper := (GridShape.read_ok read).2.2.2
    have found := searchable g warnings read
    refine ⟨fun d divides => ?_, ⟨?_, ?_⟩, fun c chosen => ?_⟩
    · have exact_ := GridShape.checkSplit_iff found divides some_ proper
      rcases GridShape.checkSplit_answered found divides some_ proper with ⟨_, passed⟩ | ⟨e, refused⟩
      · exact .inl ⟨passed, exact_.mp passed⟩
      · exact .inr ⟨⟨e, refused⟩, fun splits => nomatch refused.symm.trans (exact_.mpr splits)⟩
    · rintro ⟨c, chosen⟩
      obtain ⟨d, -, splits⟩ := GridShape.chooseSplit_splits found some_ proper chosen
      exact ⟨d, splits⟩
    · intro exist
      obtain ⟨d, chosen, -⟩ := GridShape.chooseSplit_nearest found some_ proper exist
      exact ⟨d, chosen⟩
    · obtain ⟨d, -, splits⟩ := GridShape.chooseSplit_splits found some_ proper chosen
      obtain ⟨d', chosen', best⟩ := GridShape.chooseSplit_nearest found some_ proper ⟨d, splits⟩
      exact ⟨d', Except.ok.inj (chosen.symm.trans chosen'), best⟩
  · have same (d : Nat) := Options.sameBut_set unset (d : Int)
    have grid (d : Nat) := ((same d).reads source).1
    cases read : GridShape.read source options with
    | error failure =>
      constructor
      · rintro ⟨r, loaded⟩
        obtain ⟨g, warnings, c, found, -⟩ := Mesh.load_settles loaded
        cases read.symm.trans found
      · rintro ⟨d, -, r, loaded⟩
        obtain ⟨g, warnings, c, found, -⟩ := Mesh.load_settles loaded
        cases (read.symm.trans (grid d)).trans found
    | ok p =>
      obtain ⟨g, warnings⟩ := p
      have found := searchable g warnings read
      have proper := (GridShape.read_ok read).2.2.2
      have each (d : Nat) := Mesh.load_succeeds ((grid d).symm.trans read) found inside
      simp only [each, ← ((same _).reads source).2, ← (same _).transformName_eq]
      rw [Mesh.load_succeeds read found inside, GridShape.settles_iff unset found some_ proper]
      constructor
      · rintro ⟨⟨d, divides, settled⟩, rest⟩
        exact ⟨d, divides, settled, rest⟩
      · rintro ⟨d, divides, settled, rest⟩
        exact ⟨⟨d, divides, settled⟩, rest⟩
  · have proper := (GridShape.read_ok read).2.2.2
    have found := searchable g warnings read
    obtain ⟨d, rfl, divides, splits⟩ := GridShape.chooseSplit_splits found some_ proper chosen
    obtain ⟨low, -, accepted⟩ := (GridShape.accepts_iff found some_ proper).mpr ⟨d, rfl, divides, splits⟩
    refine Mesh.load_congr read (Options.sameBut_set unset d) ?_
    rw [GridShape.settleSplit_unset unset, chosen]
    exact (GridShape.settleSplit_set (found.word some_ divides)).mpr ⟨rfl, by omega, accepted⟩

theorem split_choice_singleNull : ∃ d : Nat, singleNullShape.chooseSplit 8 = .ok d ∧ singleNullShape.Splits 8 d ∧
    (∀ other : Nat, other ∣ 8 → singleNullShape.Splits 8 other →
      Scalar.lt (singleNullShape.distance 8 other) (singleNullShape.distance 8 d) = false) ∧
    ∃ r, Mesh.load singleNullSource (Options.empty.set "NXPE" (.whole d)) ⟨0, 8⟩ = .ok r := by
  have searchable (g : GridShape Whole) (warnings : List String)
      (read : GridShape.read singleNullSource Options.empty = .ok (g, warnings)) : g.Searchable 8 := by
    rw [read_singleNull] at read
    cases read
    exact GridShape.searchable_of_small (by decide) (by decide) (by decide) (by decide)
  have unset : (Options.empty : Options Whole).isSet "NXPE" = false := by rw [Options.isSet_empty]
  have chosen : singleNullShape.chooseSplit 8 = .ok 2 := (GridShape.settleSplit_unset unset 8) ▸ settle_singleNull
  obtain ⟨splits, loads⟩ := split_choice_exact singleNullSource Options.empty (by decide : 0 < 8) searchable
  obtain ⟨d, same, -, possible, nearest⟩ := (splits _ _ read_singleNull).2.2 2 chosen
  refine ⟨d, same ▸ chosen, possible, fun other divides split => (nearest other divides split).1, ?_⟩
  have again := (loads unset 0 (by decide)).2 _ _ 2 read_singleNull chosen
  change Mesh.load singleNullSource (Options.empty.set "NXPE" (.whole 2)) ⟨0, 8⟩ =
    _ <$> Mesh.load singleNullSource Options.empty ⟨0, 8⟩ at again
  rw [← same, again]
  cases loaded : (Mesh.load singleNullSource Options.empty ⟨0, 8⟩ : Outcome (Mesh Whole × List String)) with
  | error e =>
    have accepted := load_singleNull
    rw [loaded] at accepted
    cases accepted
  | ok r => exact ⟨_, rfl⟩

/-! A periodic column of so many rows that double precision numbers cannot tell the last of them from the first row after
them. Three ranks find no owner of the last row in a split along y, which is the best one, although they could split the
grid along x. -/

def longSource : GridSource Whole := ⟨[("nx", ⟨5⟩), ("ny", ⟨9007199254740994⟩)], [], []⟩

def thinGuards : Options Whole := ⟨[("mxg", .whole 1), ("myg", .whole 1)]⟩

theorem long_column_refused : thinGuards.isSet "NXPE" = false ∧
    (∃ r, Mesh.load longSource (thinGuards.set "NXPE" (.whole 3)) ⟨0, 3⟩ = .ok r) ∧
    ¬ ∃ r, Mesh.load longSource thinGuards ⟨0, 3⟩ = .ok r := by
  have loads {o : Options Whole} : (Mesh.load longSource o ⟨0, 3⟩).isOk = true ↔ ∃ r, Mesh.load longSource o ⟨0, 3⟩ = .ok r := by
    cases Mesh.load longSource o ⟨0, 3⟩ <;> simp [Except.isOk, Except.toBool]
  rw [← loads, ← loads]
  decide +kernel

end HaloMesh
