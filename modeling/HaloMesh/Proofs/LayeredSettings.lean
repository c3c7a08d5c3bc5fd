import HaloMesh.Proofs.SplitChoice

/-! Settings that are laid over others. A setting is read back under its own key, and it hides nothing but what leads
through it or beyond it. -/

namespace HaloMesh

theorem Text.parts_append {mark : Char} {first : List Char} (unmarked : mark ∉ first) (rest : List Char) :
    Text.parts mark (first ++ mark :: rest) = first :: Text.parts mark rest := by
  induction first with
  | nil => simp [Text.parts]
  | cons c first ih =>
    obtain ⟨other, later⟩ := not_or.mp (List.mem_cons.not.mp unmarked)
    rw [List.cons_append, Text.parts, if_neg (Ne.symm other), ih later]

theorem Text.parts_ne_nil {mark : Char} {cs : List Char} : Text.parts mark cs ≠ [] := by
  cases cs with
  | nil => simp [Text.parts]
  | cons c cs =>
    rw [Text.parts]
    split
    · simp
    · split <;> simp

namespace Options

variable {α : Type} {p q : List String} {key : String} {o : Options α} {settings : List (String × Setting α)}

theorem path_ne_nil : path key ≠ [] := by
  simpa [path] using Text.parts_ne_nil

/-- Two ways of which neither leads through or beyond the other. -/
def Apart (p q : List String) : Prop := ¬ p <+: q ∧ ¬ q <+: p

theorem Apart.of_head {a b : String} (differ : a ≠ b) : Apart (a :: p) (b :: q) :=
  ⟨fun first => differ (List.cons_prefix_cons.mp first).1, fun first => differ (List.cons_prefix_cons.mp first).1.symm⟩

/-- Ways that are the same, or apart. -/
def Clear (p q : List String) : Prop := p = q ∨ Apart p q

theorem Clear.of_head {a b : String} (differ : a ≠ b) : Clear (a :: p) (b :: q) := .inr (.of_head differ)

theorem clear_cons {a : String} : Clear (a :: p) (a :: q) ↔ Clear p q := by
  simp [Clear, Apart, List.cons_prefix_cons]

theorem Clear.single (a b : String) : Clear [a] [b] := by
  by_cases same : a = b
  · exact .inl (by rw [same])
  · exact .of_head same

theorem follow?_elsewhere {a b : String} (differ : a ≠ b) (s : Setting α) (entries : List (String × Setting α)) :
    follow? (b :: q) (Named.assign a s entries) = follow? (b :: q) entries := by
  cases q with
  | nil => rw [follow?, follow?, Named.find?_assign, if_neg differ]
  | cons c q => simp only [follow?, Named.find?_assign, if_neg differ]

/-- By recursion on the way of the setting: as long as both ways go through the same table it is the inner one that counts. -/
theorem follow?_place (clear : Clear p q) (some_ : p ≠ []) (s : Setting α) (entries : List (String × Setting α)) :
    follow? q (place p s entries) = if p = q then some s else follow? q entries := by
  induction p generalizing q entries with
  | nil => exact absurd rfl some_
  | cons a p ih =>
    cases q with
    | nil => exact absurd clear (by simp [Clear, Apart])
    | cons b q =>
      by_cases same : a = b
      · subst same
        have inner := clear_cons.mp clear
        cases p with
        | nil =>
          obtain rfl : [] = q := inner.resolve_right fun apart => apart.1 List.nil_prefix
          rw [place, follow?, Named.find?_assign, if_pos rfl, if_pos rfl]
        | cons a' p =>
          cases q with
          | nil => exact absurd inner (by simp [Clear, Apart])
          | cons b' q =>
            simp only [place, follow?, Named.find?_assign, if_true, ih inner (List.cons_ne_nil _ _), List.cons.injEq, true_and]
            refine if_congr Iff.rfl rfl ?_
            have bare : follow? (b' :: q) ([] : List (String × Setting α)) = none := by
              cases q <;> rfl
            cases Named.find? entries a with
            | none => exact bare
            | some held => cases held <;> first | exact bare | rfl
      · have apart : a :: p ≠ b :: q := fun equal => same (List.cons.inj equal).1
        rw [if_neg apart]
        cases p with
        | nil => exact follow?_elsewhere same s entries
        | cons a' p => exact follow?_elsewhere same _ entries

theorem get?_set {name : String} {s : Setting α} (clear : Clear (path name) (path key)) :
    (o.set name s).get? key = if path name = path key then some s.lowered else o.get? key :=
  follow?_place clear path_ne_nil s.lowered o.entries

/-- The last setting of a list that goes a way. -/
def lastOf (q : List String) (settings : List (String × Setting α)) : Option (Setting α) :=
  ((settings.filter fun s => path s.1 = q).getLast?).map Prod.snd

@[simp] theorem lastOf_nil : lastOf q ([] : List (String × Setting α)) = none := rfl

@[simp] theorem lastOf_append (first second : List (String × Setting α)) :
    lastOf q (first ++ second) = (lastOf q second).or (lastOf q first) := by
  simp only [lastOf, List.filter_append, List.getLast?_append, Option.map_or]

@[simp] theorem lastOf_cons (name : String) (s : Setting α) (rest : List (String × Setting α)) :
    lastOf q ((name, s) :: rest) = (lastOf q rest).or (if path name = q then some s else none) := by
  rw [← List.singleton_append, lastOf_append]
  by_cases same : path name = q <;> simp [lastOf, same]

theorem lastOf_eq_none : lastOf q settings = none ↔ ∀ s ∈ settings, path s.1 ≠ q := by
  simp [lastOf]

theorem mem_of_lastOf {s : Setting α} (found : lastOf q settings = some s) : ∃ name, (name, s) ∈ settings ∧ path name = q := by
  obtain ⟨⟨name, _⟩, last, rfl⟩ := Option.map_eq_some_iff.mp found
  obtain ⟨member, same⟩ := List.mem_filter.mp (List.mem_of_getLast? last)
  exact ⟨name, member, of_decide_eq_true same⟩

/-- Of settings laid over others the last one of a key counts, and without one the others do. -/
theorem get?_over (clear : ∀ s ∈ settings, Clear (path s.1) (path key)) (plain : ∀ s ∈ settings, s.2.lowered = s.2) :
    (settings.foldl (fun o (name, s) => o.set name s) o).get? key = (lastOf (path key) settings).or (o.get? key) := by
  induction settings generalizing o with
  | nil => rfl
  | cons s rest ih =>
    have later := ih (o := o.set s.1 s.2) (fun t member => clear t (List.mem_cons_of_mem _ member))
      fun t member => plain t (List.mem_cons_of_mem _ member)
    rw [List.foldl_cons, later, get?_set (clear s List.mem_cons_self), plain s List.mem_cons_self, lastOf_cons, Option.or_assoc]
    split <;> rfl

end Options

end HaloMesh
