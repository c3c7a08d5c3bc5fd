import HaloMesh.Rank
import HaloMesh.Proofs.FieldLines
import HaloMesh.Proofs.ProgramPath

/-! Exchanges of stored fields. A rank looks its fields up, exchanges copies of them, and in the end puts the
values of the copies into the fields. -/

namespace HaloMesh
open Transport Program

variable {α β γ : Type}

namespace Field

theorem withData_ok {f f' : Field α} {data : Array α} (taken : f.withData data = .ok f') :
    f'.data = data ∧ Alike f f' := by
  simp only [withData] at taken
  split at taken
  next same =>
    cases taken
    exact ⟨rfl, rfl, rfl, rfl, same, rfl, rfl⟩
  next => cases taken

theorem eq_of_alike {f g : Field α} (alike : Alike f g) (values : g.data = f.data) : g = f := by
  obtain ⟨nx, ny, nz, data, loc, aligned, size⟩ := f
  obtain ⟨nx', ny', nz', data', loc', aligned', size'⟩ := g
  obtain ⟨rfl, rfl, rfl, -, rfl, rfl⟩ := alike
  cases values
  rfl

theorem withData_of_size {f : Field α} {data : Array α} (size : data.size = f.data.size) :
    ∃ f', f.withData data = .ok f' := ⟨_, dif_pos size⟩

theorem withData_congr {f g : Field α} (alike : Alike f g) (data : Array α) : g.withData data = f.withData data := by
  by_cases size : data.size = f.data.size
  · obtain ⟨f', first⟩ := withData_of_size size
    obtain ⟨g', second⟩ := withData_of_size (size.trans alike.size.symm)
    obtain ⟨values, kept⟩ := withData_ok first
    obtain ⟨values', kept'⟩ := withData_ok second
    have both : Alike g' f' :=
      ⟨by rw [kept.nx, kept'.nx, alike.nx], by rw [kept.ny, kept'.ny, alike.ny], by rw [kept.nz, kept'.nz, alike.nz],
        by rw [values, values'], by rw [kept.loc, kept'.loc, alike.loc],
        by rw [kept.aligned, kept'.aligned, alike.aligned]⟩
    rw [first, second, eq_of_alike both (values.trans values'.symm)]
  · rw [withData, withData, dif_neg size, dif_neg (alike.size ▸ size)]

theorem withData_of_alike {f g : Field α} (alike : Alike f g) : f.withData g.data = .ok g := by
  obtain ⟨f', taken⟩ := withData_of_size alike.size
  obtain ⟨values, -⟩ := withData_ok taken
  rw [← withData_congr alike] at taken ⊢
  obtain ⟨-, kept⟩ := withData_ok taken
  rw [taken, eq_of_alike kept values]

theorem size_congr {f g : Field α} (same : f.extents = g.extents) : f.data.size = g.data.size := by
  have first := f.data_size
  have second := g.data_size
  simp only [extents, Extents.mk.injEq, Int.natCast_inj] at same
  rw [same.1, same.2.1, same.2.2] at first
  omega

theorem line_congr {f g : Field α} (rows : f.ny = g.ny) (points : f.nz = g.nz) (values : f.data = g.data) (x y : Int) :
    f.line x y = g.line x y := by
  simp only [line, lineStart, index, rows, points, values]

end Field

namespace Store

variable {s : Store α} {ref other : FieldRef} {f g : Field α}

theorem get?_put (found : s.get? ref = some f) (g : Field α) (other : FieldRef) :
    (s.put ref g).get? other = if other = ref then some g else s.get? other := by
  obtain ⟨i⟩ := ref
  obtain ⟨j⟩ := other
  simp only [get?, put, FieldRef.mk.injEq] at found ⊢
  have inside := (Array.getElem?_eq_some_iff.mp found).1
  rw [Array.getElem?_setIfInBounds]
  by_cases same : j = i
  · subst same
    simp [inside]
  · simp [same, Ne.symm same]

theorem get?_putValues (found : s.get? ref = some f) {f' : Field α} (taken : f.withData g.data = .ok f')
    (other : FieldRef) : (s.putValues ref g).get? other = if other = ref then some f' else s.get? other := by
  simp only [putValues, found, taken]
  exact get?_put found f' other

theorem mapM_get? {refs : List FieldRef} {fields : List (Field α)} :
    refs.mapM s.get? = some fields ↔ refs.map s.get? = fields.map some := by
  induction refs generalizing fields with
  | nil => cases fields <;> simp
  | cons ref rest ih =>
    rw [List.mapM_cons]
    cases found : s.get? ref with
    | none => cases fields <;> simp [found]
    | some f =>
      cases later : rest.mapM s.get? with
      | none =>
        apply iff_of_false (by simp)
        intro same
        cases fields with
        | nil => simp at same
        | cons g others => simpa [later] using ih.mpr (List.cons.inj same).2
      | some others =>
        have tail := ih.mp later
        cases fields with
        | nil => simp
        | cons g others' => simp [found, tail, List.map_inj_right]

theorem found_of_mapM {refs : List FieldRef} {fields : List (Field α)} (found : refs.mapM s.get? = some fields)
    {k : Nat} (named : refs[k]? = some ref) : ∃ f, s.get? ref = some f ∧ fields[k]? = some f := by
  have same := congrArg (·[k]?) (mapM_get?.mp found)
  simp only [List.getElem?_map, named, Option.map_some] at same
  obtain ⟨f, present, stored⟩ := Option.map_eq_some_iff.mp same.symm
  exact ⟨f, stored.symm, present⟩

/-- New values go into the last place that is named for a field, and nothing else changes. -/
theorem get?_putAllValues (refs : List FieldRef) (values : List (Field α)) (s : Store α)
    (sized : ∀ (k : Nat) ref, refs[k]? = some ref → ∃ f g : Field α, s.get? ref = some f ∧ values[k]? = some g ∧
      g.data.size = f.data.size) :
    (∀ ref, ref ∉ refs → (s.putAllValues refs values).get? ref = s.get? ref) ∧
      ∀ (k : Nat) (ref : FieldRef) (f g : Field α), refs[k]? = some ref → ref ∉ refs.drop (k + 1) → s.get? ref = some f →
        values[k]? = some g → ∃ f', f.withData g.data = .ok f' ∧ (s.putAllValues refs values).get? ref = some f' := by
  induction refs generalizing values s with
  | nil => exact ⟨fun _ _ => by rw [putAllValues]; simp, fun k ref f g named => by simp at named⟩
  | cons first rest ih =>
    obtain ⟨f₀, g₀, found₀, value₀, size₀⟩ := sized 0 first rfl
    obtain ⟨v, later, rfl⟩ : ∃ v later, values = v :: later := by
      cases values with
      | nil => simp at value₀
      | cons v later => exact ⟨v, later, rfl⟩
    obtain rfl : v = g₀ := by simpa using value₀
    obtain ⟨f₁, taken₀⟩ := Field.withData_of_size size₀
    have after := get?_putValues found₀ taken₀
    have alike := (Field.withData_ok taken₀).2
    have still (ref : FieldRef) (f : Field α) (found : s.get? ref = some f) :
        ∃ f', (s.putValues first v).get? ref = some f' ∧ Field.Alike f f' := by
      rw [after]
      split
      next same =>
        subst same
        obtain rfl : f = f₀ := Option.some.inj (found.symm.trans found₀)
        exact ⟨f₁, rfl, alike⟩
      next => exact ⟨f, found, Field.Alike.refl f⟩
    obtain ⟨others, named⟩ := ih later (s.putValues first v) fun k ref place => by
      obtain ⟨f, g, found, value, size⟩ := sized (k + 1) ref place
      obtain ⟨f', found', same⟩ := still ref f found
      exact ⟨f', g, found', value, size.trans same.size.symm⟩
    rw [putAllValues]
    refine ⟨fun ref outside => ?_, fun k ref f g place last found value => ?_⟩
    · rw [List.mem_cons, not_or] at outside
      rw [others ref outside.2, after, if_neg outside.1]
    · cases k with
      | zero =>
        obtain rfl : first = ref := by simpa using place
        obtain rfl : v = g := by simpa using value
        obtain rfl : f = f₀ := Option.some.inj (found.symm.trans found₀)
        refine ⟨f₁, taken₀, ?_⟩
        rw [others _ (by simpa using last), after, if_pos rfl]
      | succ k =>
        obtain ⟨f', found', same⟩ := still ref f found
        obtain ⟨f'', taken, put⟩ := named k ref f' g place last found' value
        exact ⟨f'', Field.withData_congr same _ ▸ taken, put⟩

/-- Fields that take the values of fields like them become these. -/
theorem get?_putAllValues_of_alike {refs : List FieldRef} {fields values : List (Field α)}
    (found : refs.mapM s.get? = some fields)
    (alike : ∀ (k : Nat) (f : Field α), fields[k]? = some f → ∃ g, values[k]? = some g ∧ Field.Alike f g) :
    (∀ ref, ref ∉ refs → (s.putAllValues refs values).get? ref = s.get? ref) ∧
      ∀ (k : Nat) (ref : FieldRef), refs[k]? = some ref → ref ∉ refs.drop (k + 1) →
        (s.putAllValues refs values).get? ref = values[k]? := by
  obtain ⟨others, put⟩ := get?_putAllValues refs values s fun k ref named => by
    obtain ⟨f, stored, present⟩ := found_of_mapM found named
    obtain ⟨g, value, same⟩ := alike k f present
    exact ⟨f, g, stored, value, same.size⟩
  refine ⟨others, fun k ref named last => ?_⟩
  obtain ⟨f, stored, present⟩ := found_of_mapM found named
  obtain ⟨g, value, same⟩ := alike k f present
  obtain ⟨f', taken, now⟩ := put k ref f g named last stored value
  rw [Field.withData_of_alike same] at taken
  rw [now, value, Except.ok.inj taken]

end Store

namespace RankM

theorem run_bind (c : RankM α β) (next : β → RankM α γ) (r : Rank α) :
    (c >>= next).run.run r = (c.run.run r).bind fun found => match found with
      | (.ok b, r) => (next b).run.run r
      | (.error e, r) => .finished (.error e, r) := by
  refine congrArg (Program.bind _) (funext fun found => ?_)
  obtain ⟨result, r⟩ := found
  cases result <;> rfl

theorem fieldAt_run (ref : FieldRef) (r : Rank α) : (fieldAt ref).run.run r = match r.store.get? ref with
    | some f => .finished (.ok f, r)
    | none => .finished (.error .outOfRange, r) := by
  change (match r.store.get? ref with
    | some f => return f
    | none => throw Failure.outOfRange : RankM α (Field α)).run.run r = _
  cases r.store.get? ref <;> rfl

theorem talk_run (p : Program (Array α) β) (r : Rank α) : (talk p).run.run r = p.bind fun b => .finished (.ok b, r) := by
  change (p.bind fun b => .finished (b, r)).bind _ = _
  rw [Program.bind_bind]
  rfl

theorem mesh_run (r : Rank α) : (mesh : RankM α (Mesh α)).run.run r = .finished (.ok r.mesh, r) := rfl

theorem fetch_run (refs : List FieldRef) (r : Rank α) :
    (refs.mapM fieldAt : RankM α (List (Field α))).run.run r = match refs.mapM r.store.get? with
      | some fields => .finished (.ok fields, r)
      | none => .finished (.error .outOfRange, r) := by
  induction refs with
  | nil => rfl
  | cons ref rest ih =>
    rw [List.mapM_cons, List.mapM_cons, run_bind, fieldAt_run]
    cases found : r.store.get? ref with
    | none => rfl
    | some f =>
      dsimp only [Program.bind]
      rw [run_bind, ih]
      cases rest.mapM r.store.get? <;> rfl

variable [Scalar α]

theorem send_run (refs : List FieldRef) (xOnly : Bool) (r : Rank α) : (send refs xOnly).run.run r =
    match refs.mapM r.store.get? with
    | none => .finished (.error .outOfRange, r)
    | some fields => (r.mesh.startExchange fields xOnly).bind fun result => match result with
      | .error e => .finished (.error (.returned e), r)
      | .ok exchange => .finished (.ok { fields := refs, exchange, consumed := false }, r) := by
  unfold send
  rw [run_bind, fetch_run]
  cases refs.mapM r.store.get? with
  | none => rfl
  | some fields =>
    dsimp only [Program.bind]
    rw [run_bind, mesh_run]
    dsimp only [Program.bind]
    unfold tryTalk
    rw [run_bind, run_bind, talk_run, Program.bind_bind, Program.bind_bind]
    refine congrArg (Program.bind _) (funext fun result => ?_)
    cases result <;> rfl

theorem wait_consumed {h : Handle α} (r : Rank α) (spent : h.consumed = true) :
    (wait h).run.run r = .finished (.ok (h, some .handleConsumed), r) := by
  unfold wait
  simp only [spent, ↓reduceIte]
  rfl

theorem wait_run (h : Handle α) (r : Rank α) (fresh : h.consumed = false) : (wait h).run.run r =
    (r.mesh.finishExchange h.exchange).bind fun result => match result with
      | .error e => .finished (.ok ({ h with consumed := true }, some e), r)
      | .ok staged =>
        .finished (.ok ({ h with consumed := true }, none), { r with store := r.store.putAllValues h.fields staged }) := by
  unfold wait
  simp only [fresh, Bool.false_eq_true, ↓reduceIte]
  rw [run_bind, mesh_run]
  dsimp only [Program.bind]
  rw [run_bind, talk_run, Program.bind_bind]
  refine congrArg (Program.bind _) (funext fun result => ?_)
  cases result <;> rfl

theorem send_path {refs : List FieldRef} {xOnly : Bool} {r r' : Rank α} {h : Handle α} {events : List (Event (Array α))} :
    Path ((send refs xOnly).run.run r) events (.finished (.ok h, r')) ↔
      ∃ fields exchange, refs.mapM r.store.get? = some fields ∧ r' = r ∧
        h = { fields := refs, exchange, consumed := false } ∧
        Path (r.mesh.startExchange fields xOnly) events (.finished (.ok exchange)) := by
  rw [send_run]
  cases found : refs.mapM r.store.get? with
  | none =>
    constructor
    · intro path
      cases (Prod.mk.inj path.finished_eq.2).1
    · intro holds
      obtain ⟨fields, exchange, impossible, -⟩ := holds
      cases impossible
  | some fields =>
    constructor
    · intro path
      obtain ⟨first, second, result, rfl, started, path⟩ := path.of_bind_finished
      cases result with
      | error e => cases (Prod.mk.inj path.finished_eq.2).1
      | ok exchange =>
        obtain ⟨rfl, same⟩ := path.finished_eq
        obtain ⟨made, rfl⟩ := Prod.mk.inj same
        exact ⟨fields, exchange, rfl, rfl, (Except.ok.inj made).symm, by rwa [List.append_nil]⟩
    · intro holds
      obtain ⟨_, exchange, same, rfl, rfl, started⟩ := holds
      cases same
      rw [← List.append_nil events]
      exact started.bind_finished (.here _)

/-- A wait without an error has finished its exchange and put the values into the fields. -/
theorem wait_path {h h' : Handle α} {r r' : Rank α} {events : List (Event (Array α))} :
    Path ((wait h).run.run r) events (.finished (.ok (h', none), r')) ↔ h.consumed = false ∧ ∃ staged,
      h' = { h with consumed := true } ∧ r' = { r with store := r.store.putAllValues h.fields staged } ∧
        Path (r.mesh.finishExchange h.exchange) events (.finished (.ok staged)) := by
  cases spent : h.consumed with
  | true =>
    rw [wait_consumed r spent]
    constructor
    · intro path
      cases (Prod.mk.inj (Except.ok.inj (Prod.mk.inj path.finished_eq.2).1)).2
    · intro holds
      obtain ⟨impossible, -⟩ := holds
      cases impossible
  | false =>
    rw [wait_run h r spent]
    constructor
    · intro path
      obtain ⟨first, second, result, rfl, finished, path⟩ := path.of_bind_finished
      cases result with
      | error e => cases (Prod.mk.inj (Except.ok.inj (Prod.mk.inj path.finished_eq.2).1)).2
      | ok staged =>
        obtain ⟨rfl, same⟩ := path.finished_eq
        obtain ⟨made, rfl⟩ := Prod.mk.inj same
        exact ⟨rfl, staged, (Prod.mk.inj (Except.ok.inj made)).1.symm, rfl, by rwa [List.append_nil]⟩
    · intro holds
      obtain ⟨-, staged, rfl, rfl, finished⟩ := holds
      rw [← List.append_nil events]
      exact finished.bind_finished (.here _)

/-- A group that is found is communicated by one exchange. -/
theorem communicate_run {refs : List FieldRef} {xOnly : Bool} {r : Rank α} {fields : List (Field α)}
    (found : refs.mapM r.store.get? = some fields) : (communicate refs xOnly).run.run r =
      (r.mesh.exchange fields xOnly).bind fun result => match result with
        | .error e => .finished (.error (.returned e), r)
        | .ok staged => .finished (.ok (), { r with store := r.store.putAllValues refs staged }) := by
  unfold communicate
  rw [run_bind, send_run, found]
  change _ = ((r.mesh.startExchange fields xOnly).bind _).bind _
  dsimp only
  rw [Program.bind_bind, Program.bind_bind]
  refine congrArg (Program.bind _) (funext fun started => ?_)
  cases started with
  | error e => rfl
  | ok ex =>
    dsimp only [Program.bind]
    rw [run_bind, wait_run _ _ rfl, Program.bind_bind]
    refine congrArg (Program.bind _) (funext fun result => ?_)
    cases result <;> rfl

/-- Communication of a group that is found ends as its exchange does. If that has failed, nothing is stored. -/
theorem communicate_path {refs : List FieldRef} {xOnly : Bool} {r : Rank α} {fields : List (Field α)}
    (found : refs.mapM r.store.get? = some fields) {events : List (Event (Array α))} {result : Outcome Unit × Rank α}
    (path : Path ((communicate refs xOnly).run.run r) events (.finished result)) :
    ∃ outcome, Path (r.mesh.exchange fields xOnly) events (.finished outcome) ∧
      ((∃ e, outcome = .error e ∧ result = (.error (.returned e), r)) ∨
        ∃ staged, outcome = .ok staged ∧ result = (.ok (), { r with store := r.store.putAllValues refs staged })) := by
  rw [communicate_run found] at path
  obtain ⟨first, second, outcome, rfl, exchanged, path⟩ := path.of_bind_finished
  cases outcome with
  | error e =>
    obtain ⟨rfl, rfl⟩ := path.finished_eq
    exact ⟨_, by rwa [List.append_nil], .inl ⟨e, rfl, rfl⟩⟩
  | ok staged =>
    obtain ⟨rfl, rfl⟩ := path.finished_eq
    exact ⟨_, by rwa [List.append_nil], .inr ⟨staged, rfl, rfl⟩⟩

end RankM
end HaloMesh
