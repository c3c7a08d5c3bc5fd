import HaloMesh.Parameters.Reader
import HaloMesh.Proofs.LayeredSettings

/-! A parameters file over a configuration. What the file gives for a name is read off its entries, whatever their case and
order; which of it becomes a mesh option, and hides the setting of the configuration, is a matter of the field. -/

namespace HaloMesh

/-! What stands in a place of a file. -/

namespace Json

variable {α : Type} [Scalar α] {β : Type}

def whole? : Json → Option Int
  | number digits => (Text.wholeIn 10 digits.toList).toOption
  | _ => none

def real? : Json → Option α
  | number digits => (Text.number? digits).map Setting.ofNumber
  | _ => none

def flag? : Json → Option Bool
  | flag b => some b
  | _ => none

def text? : Json → Option String
  | text s => some s
  | _ => none

/-- A table with the entries of another one added, or cleared by nothing. -/
def overlaid (table : List (String × String)) : Json → List (String × String)
  | null => []
  | object entries => entries.foldl (fun table e => Named.assign e.1 (e.2.text?.getD "") table) table
  | _ => table

variable {place : Place} {j : Json}

theorem takeWhole_fst (old : Int) : (j.takeWhole place old).1 = j.whole?.getD old := by
  cases j with
  | number digits =>
    simp only [takeWhole, whole?]
    cases Text.wholeIn 10 digits.toList <;> rfl
  | _ => rfl

theorem takeReal_fst (old : α) : (j.takeReal place old).1 = j.real?.getD old := by
  cases j with
  | number digits =>
    simp only [takeReal, real?]
    cases Text.number? digits <;> rfl
  | _ => rfl

theorem takeFlag_fst (old : Bool) : (j.takeFlag place old).1 = j.flag?.getD old := by
  cases j <;> rfl

theorem takeText_fst (old : String) : (j.takeText place old).1 = j.text?.getD old := by
  cases j <;> rfl

theorem takeMethods_fst (old : List (String × String)) : (Parameters.takeMethods place old j).1 = j.overlaid old := by
  cases j with
  | object entries =>
    simp only [Parameters.takeMethods, takeTable, overlaid]
    generalize none = e
    induction entries generalizing old e with
    | nil => rfl
    | cons entry rest ih =>
      rw [List.foldl_cons, List.foldl_cons, ih]
      rw [Taken.after, takeText_fst]
  | _ => rfl

end Json

namespace Parameters

variable {α : Type} [Scalar α] {β : Type}

/-- The entries of a file, as they are taken over. -/
def fileEntries (text : String) : List (String × Json) :=
  match Yaml.read text with
  | .error _ => []
  | .ok v =>
    match Yaml.exchange v shape with
    | .ok (.object entries) => entries
    | _ => []

/-- What a file has under a name in any case. -/
def given (name : String) (file : List (String × Json)) : List Json :=
  (file.filter fun e => Text.sameName name e.1).map Prod.snd

/-- The value that a file gives, the last one that can be read. -/
def said (read : Json → Option β) (name : String) (file : List (String × Json)) : Option β :=
  ((given name file).filterMap read).getLast?

/-- The methods that a file gives for an axis. -/
def tableOf (axis : String) (file : List (String × Json)) : List (String × String) := (given axis file).foldl Json.overlaid []

theorem foldl_said (read : Json → Option β) (values : List Json) (old : β) :
    values.foldl (fun b j => (read j).getD b) old = ((values.filterMap read).getLast?).getD old := by
  induction values generalizing old with
  | nil => rfl
  | cons j rest ih =>
    rw [List.foldl_cons, ih]
    cases found : read j with
    | none => rw [List.filterMap_cons_none found, Option.getD_none]
    | some b => 
      rw [List.filterMap_cons_some found, List.getLast?_cons]
      simp

/-- A field of the file with how its value is taken over. -/
abbrev Member (α : Type) := String × (Parameters α → Json → Json.Taken (Parameters α))

/-- Names that are the same but for case are of one field. -/
theorem names_distinct {f g : Member α} (here : f ∈ fields) (there : g ∈ fields) (same : Text.sameName f.1 g.1 = true) :
    f.1 = g.1 := by
  have names : (fields (α := α)).map Prod.fst = (fields (α := Float)).map Prod.fst := rfl
  have distinct : ∀ a ∈ (fields (α := Float)).map Prod.fst, ∀ b ∈ (fields (α := Float)).map Prod.fst,
      Text.sameName a b = true → a = b := by
    decide +kernel
  exact distinct _ (names ▸ List.mem_map_of_mem here) _ (names ▸ List.mem_map_of_mem there) same

theorem sameName_self (a : String) : Text.sameName a a = true := decide_eq_true rfl

theorem sameName_trans {a b c : String} (first : Text.sameName a b = true) (second : Text.sameName c b = true) :
    Text.sameName a c = true :=
  decide_eq_true ((of_decide_eq_true first).trans (of_decide_eq_true second).symm)

/-- The field that a key names. -/
def member? (key : String) : Option (Member α) :=
  (fields.find? fun f => f.1 = key).or (fields.find? fun f => Text.sameName f.1 key)

theorem member?_sound {key : String} {f : Member α} (found : member? key = some f) :
    f ∈ fields ∧ Text.sameName f.1 key = true := by
  rcases Option.or_eq_some_iff.mp found with named | ⟨-, folded⟩
  · have same : f.1 = key := by simpa using List.find?_some named
    exact ⟨List.mem_of_find?_eq_some named, same ▸ sameName_self f.1⟩
  · exact ⟨List.mem_of_find?_eq_some folded, by simpa using List.find?_some folded⟩

theorem member?_complete {key : String} {g : Member α} (member : g ∈ fields) (same : Text.sameName g.1 key = true) :
    ∃ f : Member α, member? key = some f ∧ f.1 = g.1 := by
  cases found : member? (α := α) key with
  | none =>
    have nothing := List.find?_eq_none.mp (Option.or_eq_none_iff.mp found).2 g member
    exact absurd same nothing
  | some f =>
    obtain ⟨among, like⟩ := member?_sound found
    exact ⟨f, rfl, names_distinct among member (sameName_trans like same)⟩

/-- Takes one entry of the file over. -/
def takeEntry (t : Json.Taken (Parameters α)) (entry : String × Json) : Json.Taken (Parameters α) :=
  match member? entry.1 with
  | some (_, take) => Json.Taken.after t.2 (take t.1 entry.2)
  | none => t

theorem takeRecord_object (wanted : String) (place : Json.Place) (p : Parameters α) (file : List (String × Json)) :
    (Json.object file).takeRecord fields wanted place p = file.foldl takeEntry (p, none) := by
  refine congrArg (fun step => file.foldl step (p, none)) (funext fun t => funext fun entry => ?_)
  obtain ⟨taken, e⟩ := t
  obtain ⟨key, j⟩ := entry
  unfold takeEntry member?
  dsimp only
  cases ((fields (α := α)).find? fun f => f.1 = key).or (fields.find? fun f => Text.sameName f.1 key) <;> rfl

/-- A part of the parameters that one field of the file changes and no other. -/
structure Reads (name : String) (get : Parameters α → β) (step : β → Json → β) : Prop where
  known : name ∈ (fields (α := α)).map Prod.fst
  changes : ∀ f ∈ fields (α := α), ∀ p j, get (f.2 p j).1 = if f.1 = name then step (get p) j else get p

namespace Reads

variable {name : String} {get : Parameters α → β} {step : β → Json → β}

theorem entry (reads : Reads name get step) (t : Json.Taken (Parameters α)) (key : String) (j : Json) :
    get (takeEntry t (key, j)).1 = if Text.sameName name key then step (get t.1) j else get t.1 := by
  obtain ⟨g, known, rfl⟩ := List.mem_map.mp reads.known
  unfold takeEntry
  dsimp only
  by_cases same : Text.sameName g.1 key = true
  · obtain ⟨f, found, equal⟩ := member?_complete known same
    rw [found, if_pos same]
    exact (reads.changes f (member?_sound found).1 t.1 j).trans (if_pos equal)
  · rw [if_neg same]
    cases found : member? (α := α) key with
    | none => rfl
    | some f =>
      obtain ⟨among, like⟩ := member?_sound found
      exact (reads.changes f among t.1 j).trans (if_neg fun equal : f.1 = g.1 => same (equal ▸ like))

/-- A part of the parameters follows from what the file has under its name. -/
theorem file (reads : Reads name get step) (t : Json.Taken (Parameters α)) (file : List (String × Json)) :
    get (file.foldl takeEntry t).1 = (given name file).foldl step (get t.1) := by
  induction file generalizing t with
  | nil => rfl
  | cons entry rest ih =>
    obtain ⟨key, j⟩ := entry
    rw [List.foldl_cons, ih, reads.entry]
    by_cases mine : Text.sameName name key = true <;> simp [given, mine]

end Reads

/-! The parts of the parameters, by the kind of value they take. -/

def wholes : List (String × (Parameters α → Int)) :=
  [("nx", nx), ("ny", ny), ("nz", nz), ("MXG", mxg), ("MYG", myg), ("NXPE", nxpe)]

def switches : List (String × (Parameters α → Bool)) :=
  [("periodicX", periodicX), ("StaggerGrids", staggerGrids), ("ShiftXderivs", shiftXderivs), ("IncIntShear", incIntShear),
    ("TwistShift", twistShift)]

def ends : List (String × (Parameters α → α)) := [("ZMIN", zMin), ("ZMAX", zMax)]

def axes : List (String × (Parameters α → List (String × String))) := [("ddx", ddx), ("ddy", ddy), ("ddz", ddz)]

/-- Each field is looked at in turn: its own one takes the step, the others leave the part alone. -/
theorem Reads.of {name : String} {get : Parameters α → β} {step : β → Json → β}
    (known : name ∈ (fields (α := α)).map Prod.fst)
    (changes : (fields (α := α)).Forall fun f => ∀ p j, get (f.2 p j).1 = if f.1 = name then step (get p) j else get p) :
    Reads name get step :=
  ⟨known, List.forall_iff_forall_mem.mp changes⟩

theorem reads_whole : ∀ f ∈ wholes (α := α), Reads f.1 f.2 fun n j => j.whole?.getD n := by
  intro f member
  simp only [wholes, List.mem_cons, List.not_mem_nil, or_false] at member
  rcases member with rfl | rfl | rfl | rfl | rfl | rfl
  all_goals
    refine .of (by simp [fields, fieldOf]) ?_
    repeat' apply And.intro
    all_goals first
      | exact fun _ _ => Json.takeWhole_fst _
      | exact fun _ _ => rfl

theorem reads_switch : ∀ f ∈ switches (α := α), Reads f.1 f.2 fun b j => j.flag?.getD b := by
  intro f member
  simp only [switches, List.mem_cons, List.not_mem_nil, or_false] at member
  rcases member with rfl | rfl | rfl | rfl | rfl
  all_goals
    refine .of (by simp [fields, fieldOf]) ?_
    repeat' apply And.intro
    all_goals first
      | exact fun _ _ => Json.takeFlag_fst _
      | exact fun _ _ => rfl

theorem reads_axis : ∀ f ∈ axes (α := α), Reads f.1 f.2 Json.overlaid := by
  intro f member
  simp only [axes, List.mem_cons, List.not_mem_nil, or_false] at member
  rcases member with rfl | rfl | rfl
  all_goals
    refine .of (by simp [fields, fieldOf]) ?_
    repeat' apply And.intro
    all_goals first
      | exact fun _ _ => Json.takeMethods_fst _
      | exact fun _ _ => rfl

theorem reads_end : ∀ f ∈ ends (α := α), Reads f.1 f.2 fun x j => j.real?.getD x := by
  intro f member
  simp only [ends, List.mem_cons, List.not_mem_nil, or_false] at member
  rcases member with rfl | rfl
  all_goals
    refine .of (by simp [fields, fieldOf]) ?_
    repeat' apply And.intro
    all_goals first
      | exact fun _ _ => Json.takeReal_fst _
      | exact fun _ _ => rfl

theorem reads_transform : Reads (α := α) "ParallelTransform" parallelTransform fun s j => j.text?.getD s := by
  refine .of (by simp [fields, fieldOf]) ?_
  repeat' apply And.intro
  all_goals first
    | exact fun _ _ => Json.takeText_fst _
    | exact fun _ _ => rfl

theorem reads_periodicY :
    Reads (α := α) "periodicY" periodicY fun b j => (j.takeOptionalFlag (place "periodicY") b).1 := by
  refine .of (by simp [fields, fieldOf]) ?_
  repeat' apply And.intro
  all_goals exact fun _ _ => rfl

end Parameters

/-! A file that mentions a name has an entry for it. -/

theorem Named.mem_keepLast {β : Type} {name : String} (entries : List (String × β)) :
    name ∈ (keepLast entries).map Prod.fst ↔ name ∈ entries.map Prod.fst := by
  fun_induction keepLast entries with
  | case1 first second rest same ih => 
    rw [ih]
    simp [same]
  | case2 first second rest other ih => simp [ih]
  | case3 entries single => rfl

theorem Named.mem_sorted {β : Type} {name : String} (entries : List (String × β)) :
    name ∈ (sorted entries).map Prod.fst ↔ name ∈ entries.map Prod.fst := by
  rw [sorted, mem_keepLast]
  exact ((List.mergeSort_perm _ _).map Prod.fst).mem_iff

namespace Yaml

theorem bind_ok {β γ : Type} {first : Except String β} {next : β → Except String γ} {c : γ}
    (ran : (first >>= next) = .ok c) : ∃ b, first = .ok b ∧ next b = .ok c := by
  cases first with
  | error detail => exact absurd ran nofun
  | ok b => exact ⟨b, rfl, ran⟩

theorem Value.key_entriesToJson {entries : List (Value × Value)} {shape : Shape} {js : List (String × Json)}
    (exchanged : entriesToJson entries shape = .ok js) : ∀ e ∈ entries, ∃ key, e.1.keyText? = some key ∧ key ∈ js.map Prod.fst := by
  induction entries generalizing js with
  | nil => exact nofun
  | cons entry rest ih =>
    obtain ⟨k, v⟩ := entry
    rw [entriesToJson] at exchanged
    cases found : k.keyText? with
    | none =>
      rw [found] at exchanged
      exact absurd exchanged nofun
    | some key =>
      rw [found] at exchanged
      obtain ⟨j, -, exchanged⟩ := bind_ok exchanged
      obtain ⟨later, remaining, exchanged⟩ := bind_ok exchanged
      obtain rfl := Except.ok.inj exchanged
      intro e member
      rcases List.mem_cons.mp member with rfl | member
      · exact ⟨key, found, List.mem_cons_self⟩
      · obtain ⟨other, text, among⟩ := ih remaining e member
        exact ⟨other, text, List.mem_cons_of_mem _ among⟩

theorem exchange_table {entries : List (Value × Value)} {shape : Shape} {j : Json}
    (exchanged : exchange (.table entries) shape = .ok j) :
    ∃ file, j = .object file ∧ ∀ e ∈ entries, ∃ key, e.1.keyText? = some key ∧ key ∈ file.map Prod.fst := by
  obtain ⟨whole, made, passed⟩ := bind_ok exchanged
  rw [Value.toJson] at made
  obtain ⟨js, each, made⟩ := bind_ok made
  obtain rfl := Except.ok.inj made
  have same : Json.object (Named.sorted js) = j := by
    split at passed
    · exact absurd passed nofun
    · exact Except.ok.inj passed
  refine ⟨_, same.symm, fun e member => ?_⟩
  obtain ⟨key, text, among⟩ := Value.key_entriesToJson each e member
  exact ⟨key, text, (Named.mem_sorted js).mpr among⟩

end Yaml

namespace Parameters

variable {α : Type} [Scalar α]

theorem given_ne_nil {name key : String} {file : List (String × Json)} (member : key ∈ file.map Prod.fst)
    (same : Text.sameName name key = true) : given name file ≠ [] := by
  obtain ⟨entry, among, rfl⟩ := List.mem_map.mp member
  exact List.ne_nil_of_mem (List.mem_map_of_mem (List.mem_filter.mpr ⟨among, same⟩))

theorem decided_unset {v : Yaml.Value} {j : Json} (exchanged : Yaml.exchange v shape = .ok j) :
    (unset : Parameters α).decided v = unset ∨ (unset : Parameters α).decided v = { unset with periodicY := some false } ∧
      ∃ file, j = .object file ∧ given "periodicY" file ≠ [] := by
  cases v with
  | table entries =>
    obtain ⟨file, same, keys⟩ := Yaml.exchange_table exchanged
    rw [decided]
    split
    next mentioned =>
      obtain ⟨e, member, named⟩ := List.any_eq_true.mp (Bool.and_eq_true_iff.mp mentioned).1
      obtain ⟨key, text, among⟩ := keys e member
      rw [text] at named
      exact .inr ⟨rfl, file, same, given_ne_nil among (decide_eq_true (of_decide_eq_true named).symm)⟩
    next => exact .inl rfl
  | _ => exact .inl rfl

/-- A file that can be used is taken over entry by entry. Mentioning whether y is periodic decides about it first. -/
theorem load_usable {text : String} (usable : ((unset : Parameters α).load text).2 = none) :
    ∃ start : Parameters α, (fileEntries text).foldl takeEntry (start, none) = (((unset : Parameters α).load text).1, none) ∧
      (start = unset ∨ start = { unset with periodicY := some false } ∧ given "periodicY" (fileEntries text) ≠ []) := by
  unfold load at usable ⊢
  unfold fileEntries
  cases read : Yaml.read text with
  | error detail => simp [read] at usable
  | ok v =>
    cases exchanged : Yaml.exchange v shape with
    | error detail => simp [read, exchanged] at usable
    | ok j =>
      cases depth : j.depthFault? with
      | some detail => simp [read, exchanged, depth] at usable
      | none =>
        simp only [read, exchanged, depth, Option.map_eq_none_iff] at usable
        simp only [exchanged, depth]
        refine ⟨(unset : Parameters α).decided v, ?_, ?_⟩
        · cases j with
          | object file =>
            rw [takeRecord_object] at usable ⊢
            exact Prod.ext rfl usable
          | null => rfl
          | _ => exact absurd usable nofun
        · rcases decided_unset (α := α) exchanged with plain | ⟨changed, file, rfl, mentioned⟩
          · exact .inl plain
          · exact .inr ⟨changed, mentioned⟩

theorem takeEntry_silent {t : Json.Taken (Parameters α)} {key : String} {j : Json} (passed : (takeEntry t (key, j)).2 = none) :
    t.2 = none ∧ ∀ f : Member α, member? key = some f → ∃ p, (f.2 p j).2 = none := by
  unfold takeEntry at passed
  cases found : member? (α := α) key with
  | none =>
    rw [found] at passed
    exact ⟨passed, nofun⟩
  | some f =>
    rw [found] at passed
    obtain ⟨before, now⟩ := Option.or_eq_none_iff.mp passed
    refine ⟨before, fun g same => ⟨t.1, ?_⟩⟩
    obtain rfl := Option.some.inj same
    exact now

/-- Without an error every value fits the field that it is for. -/
theorem all_silent {t : Json.Taken (Parameters α)} {file : List (String × Json)} (passed : (file.foldl takeEntry t).2 = none) :
    t.2 = none ∧ ∀ e ∈ file, ∀ f : Member α, member? e.1 = some f → ∃ p, (f.2 p e.2).2 = none := by
  induction file generalizing t with
  | nil => exact ⟨passed, nofun⟩
  | cons entry rest ih =>
    obtain ⟨first, later⟩ := ih passed
    obtain ⟨before, now⟩ := takeEntry_silent first
    exact ⟨before, List.forall_mem_cons.mpr ⟨now, later⟩⟩

theorem periodicY_fits {t : Json.Taken (Parameters α)} {file : List (String × Json)}
    (passed : (file.foldl takeEntry t).2 = none) : ∀ j ∈ given "periodicY" file, j = .null ∨ ∃ b, j = .flag b := by
  have fits : ∀ f ∈ fields (α := α), f.1 = "periodicY" → ∀ p j, (f.2 p j).2 = none → j = .null ∨ ∃ b, j = .flag b := by
    refine List.forall_iff_forall_mem.mp ?_
    repeat' apply And.intro
    all_goals intro named p j silent
    all_goals first
      | cases j <;> first | exact .inl rfl | exact .inr ⟨_, rfl⟩ | cases silent; done
      | exact absurd named (by simp [fieldOf])
  intro j member
  obtain ⟨⟨key, j⟩, among, rfl⟩ := List.mem_map.mp member
  obtain ⟨inside, same⟩ := List.mem_filter.mp among
  obtain ⟨g, known, named⟩ := List.mem_map.mp (reads_periodicY (α := α)).known
  obtain ⟨f, found, equal⟩ := member?_complete known (named ▸ same)
  obtain ⟨p, silent⟩ := (all_silent passed).2 _ inside f found
  exact fits f (member?_sound found).1 (equal.trans named) p j silent

/-- What a file that can be used sets. -/
structure FromFile (file : List (String × Json)) (p : Parameters α) : Prop where
  whole : ∀ f ∈ wholes (α := α), f.2 p = (said Json.whole? f.1 file).getD 0
  switch : ∀ f ∈ switches (α := α), f.2 p = (said Json.flag? f.1 file).getD false
  periodicY : p.periodicY = (given "periodicY" file).getLast?.bind Json.flag?
  transform : p.parallelTransform = (said Json.text? "ParallelTransform" file).getD ""
  ends : ∀ f ∈ ends (α := α), f.2 p = (said Json.real? f.1 file).getD 0
  methods : ∀ f ∈ axes (α := α), f.2 p = tableOf f.1 file

theorem fromFile {text : String} (usable : ((unset : Parameters α).load text).2 = none) :
    FromFile (fileEntries text) ((unset : Parameters α).load text).1 := by
  obtain ⟨start, taken, begins⟩ := load_usable usable
  have reads {β : Type} {name : String} {get : Parameters α → β} {step : β → Json → β} (reads : Reads name get step) :
      get ((unset : Parameters α).load text).1 = (given name (fileEntries text)).foldl step (get start) := by
    rw [← reads.file (start, none), taken]
  -- only the periodicity of y can have been decided before
  have begun {β : Type} (get : Parameters α → β) (same : get { unset with periodicY := some false } = get unset) :
      get start = get unset := by
    rcases begins with rfl | ⟨rfl, -⟩
    · rfl
    · exact same
  constructor
  case whole =>
    intro f member
    have zero : f.2 start = 0 := by
      simp only [wholes, List.mem_cons, List.not_mem_nil, or_false] at member
      rcases member with rfl | rfl | rfl | rfl | rfl | rfl <;> exact begun _ rfl
    rw [reads (reads_whole f member), foldl_said, zero, said]
  case switch =>
    intro f member
    have off : f.2 start = false := by
      simp only [switches, List.mem_cons, List.not_mem_nil, or_false] at member
      rcases member with rfl | rfl | rfl | rfl | rfl <;> exact begun _ rfl
    rw [reads (reads_switch f member), foldl_said, off, said]
  case ends =>
    intro f member
    have zero : f.2 start = 0 := by
      simp only [ends, List.mem_cons, List.not_mem_nil, or_false] at member
      rcases member with rfl | rfl <;> exact begun _ rfl
    rw [reads (reads_end f member), foldl_said, zero, said]
  case methods =>
    intro f member
    have none : f.2 start = [] := by
      simp only [axes, List.mem_cons, List.not_mem_nil, or_false] at member
      rcases member with rfl | rfl | rfl <;> exact begun _ rfl
    rw [reads (reads_axis f member), none, tableOf]
  case transform =>
    have none : start.parallelTransform = "" := begun _ rfl
    rw [reads reads_transform, foldl_said, none, said]
  case periodicY =>
    have passed : ((fileEntries text).foldl takeEntry (start, none)).2 = none := by rw [taken]
    have fits := periodicY_fits passed
    rw [reads reads_periodicY]
    rcases List.eq_nil_or_concat (given "periodicY" (fileEntries text)) with nothing | ⟨before, last, all⟩
    · obtain rfl : start = unset := begins.resolve_right fun decided => decided.2 nothing
      rw [nothing]
      rfl
    · rw [all, List.concat_eq_append] at fits ⊢
      rw [List.foldl_append, List.getLast?_append]
      rcases fits last (by simp) with rfl | ⟨b, rfl⟩ <;> rfl

/-! The settings. -/

/-- The keys of mesh options that are not methods, as they are kept. -/
@[simp] theorem path_own : Options.path "nx" = ["nx"] ∧ Options.path "ny" = ["ny"] ∧ Options.path "nz" = ["nz"] ∧
    Options.path "MXG" = ["mxg"] ∧ Options.path "MYG" = ["myg"] ∧ Options.path "NXPE" = ["nxpe"] ∧
    Options.path "periodicX" = ["periodicx"] ∧ Options.path "periodicY" = ["periodicy"] ∧
    Options.path "StaggerGrids" = ["staggergrids"] ∧ Options.path "ShiftXderivs" = ["shiftxderivs"] ∧
    Options.path "IncIntShear" = ["incintshear"] ∧ Options.path "TwistShift" = ["twistshift"] ∧
    Options.path "paralleltransform" = ["paralleltransform"] ∧ Options.path "ZMIN" = ["zmin"] ∧
    Options.path "ZMAX" = ["zmax"] := by
  decide +kernel

def ownHeads : List String :=
  ["nx", "ny", "nz", "mxg", "myg", "nxpe", "periodicx", "periodicy", "staggergrids", "shiftxderivs", "incintshear",
    "twistshift", "paralleltransform", "zmin", "zmax"]

/-- The option that a method of a kind is set under. -/
def methodKey (axis kind : String) : String := axis ++ "." ++ Text.lower kind

theorem path_method : ∀ axis ∈ ["ddx", "ddy", "ddz"], ∀ kind,
    Options.path (methodKey axis kind) = axis :: Options.path (Text.lower kind) := by
  intro axis member kind
  have own : (Text.lower axis).toList = axis.toList ∧ '.' ∉ axis.toList := by
    revert axis
    decide +kernel
  have lowered : (Text.lower (methodKey axis kind)).toList =
      axis.toList ++ '.' :: (Text.lower (Text.lower kind)).toList := by
    rw [← own.1]
    simp only [methodKey, Text.lower, String.toList_map, String.toList_append, List.map_append, List.append_assoc]
    rfl
  rw [Options.path, lowered, Text.parts_append own.2, List.map_cons, String.ofList_toList, Options.path]

variable {p : Parameters α} {file : List (String × Json)} {configured : Options α}

/-- The settings of the methods. -/
def methodSettings (p : Parameters α) : List (String × Setting α) :=
  p.sections.flatMap fun (name, methods) => methods.map fun (kind, method) => (name ++ "." ++ Text.lower kind, .text method)

omit [Scalar α] in
theorem mem_methodSettings {s : String × Setting α} : s ∈ p.methodSettings ↔
    ∃ f ∈ axes (α := α), ∃ m ∈ f.2 p, s = (methodKey f.1 m.1, .text m.2) := by
  have sorted (methods : List (String × String)) (m : String × String) : m ∈ sortedMethods methods ↔ m ∈ methods :=
    List.mem_mergeSort
  simp [methodSettings, sections, axes, methodKey, sorted, eq_comm]

/-- The settings of everything else. -/
def ownSettings (p : Parameters α) : List (String × Setting α) :=
  { p with ddx := [], ddy := [], ddz := [] }.settings

/-- A number is set unless it is zero. -/
abbrev numberSetting (key : String) (n : Int) : List (String × Setting α) := if n = 0 then [] else [(key, .whole n)]

theorem ownSettings_eq (p : Parameters α) : p.ownSettings = numberSetting "nx" p.nx ++ numberSetting "ny" p.ny ++
    numberSetting "nz" p.nz ++ numberSetting "MXG" p.mxg ++ numberSetting "MYG" p.myg ++ numberSetting "NXPE" p.nxpe ++
    [("periodicX", Setting.flag p.periodicX)] ++ (p.periodicY.toList.map fun b => ("periodicY", Setting.flag b)) ++
    [("StaggerGrids", Setting.flag p.staggerGrids), ("ShiftXderivs", Setting.flag p.shiftXderivs),
      ("IncIntShear", Setting.flag p.incIntShear), ("TwistShift", Setting.flag p.twistShift)] ++
    (if p.parallelTransform = "" then [] else [("paralleltransform", Setting.text p.parallelTransform)]) ++
    (if Scalar.same p.zMax p.zMin then [] else [("ZMIN", Setting.real p.zMin), ("ZMAX", Setting.real p.zMax)]) := by
  simp [ownSettings, settings, sections, sortedMethods]

theorem settings_eq (p : Parameters α) : p.settings = p.ownSettings ++ p.methodSettings := by
  simp [settings, ownSettings, methodSettings, sections, sortedMethods]

section Own

omit [Scalar α]

@[simp] theorem lastOf_unless {q : List String} {unset : Prop} [Decidable unset] {set : List (String × Setting α)} :
    Options.lastOf q (if unset then [] else set) = if unset then none else Options.lastOf q set := by
  split <;> rfl

@[simp] theorem lastOf_periodicY {q : List String} :
    Options.lastOf q (p.periodicY.toList.map fun b => ("periodicY", (.flag b : Setting α))) =
      if ["periodicy"] = q then p.periodicY.map .flag else none := by
  cases p.periodicY <;> simp

end Own

theorem lastOf_whole : ∀ f ∈ wholes (α := α), Options.lastOf (Options.path f.1) p.ownSettings =
    if f.2 p = 0 then none else some (.whole (f.2 p)) := by
  intro f member
  simp only [wholes, List.mem_cons, List.not_mem_nil, or_false] at member
  rcases member with rfl | rfl | rfl | rfl | rfl | rfl
  all_goals simp [ownSettings_eq]

theorem lastOf_switch : ∀ f ∈ switches (α := α), Options.lastOf (Options.path f.1) p.ownSettings = some (.flag (f.2 p)) := by
  intro f member
  simp only [switches, List.mem_cons, List.not_mem_nil, or_false] at member
  rcases member with rfl | rfl | rfl | rfl | rfl
  all_goals simp [ownSettings_eq]

theorem lastOf_rest : Options.lastOf (Options.path "periodicY") p.ownSettings = p.periodicY.map .flag ∧
    Options.lastOf (Options.path "paralleltransform") p.ownSettings =
      (if p.parallelTransform = "" then none else some (.text p.parallelTransform)) ∧
    Options.lastOf (Options.path "ZMIN") p.ownSettings =
      (if Scalar.same p.zMax p.zMin = true then none else some (.real p.zMin)) ∧
    Options.lastOf (Options.path "ZMAX") p.ownSettings =
      (if Scalar.same p.zMax p.zMin = true then none else some (.real p.zMax)) := by
  simp [ownSettings_eq]

theorem mem_ownSettings : ∀ s ∈ p.ownSettings, (∃ head ∈ ownHeads, Options.path s.1 = [head]) ∧ s.2.lowered = s.2 := by
  simp [ownSettings_eq, or_imp, forall_and, ownHeads, Setting.lowered]

def axisNames : List String := ["ddx", "ddy", "ddz"]

theorem axis_apart : ∀ axis ∈ axisNames, ∀ head ∈ ownHeads, axis ≠ head := by decide

omit [Scalar α] in
theorem path_methodSettings {s : String × Setting α} (member : s ∈ p.methodSettings) :
    (∃ f ∈ axes (α := α), ∃ m ∈ f.2 p, s = (methodKey f.1 m.1, .text m.2) ∧
      f.1 ∈ axisNames ∧ Options.path s.1 = f.1 :: Options.path (Text.lower m.1)) ∧ s.2.lowered = s.2 := by
  obtain ⟨f, among, m, given, rfl⟩ := mem_methodSettings.mp member
  have axis : f.1 ∈ axisNames := by
    simp only [axes, List.mem_cons, List.not_mem_nil, or_false] at among
    rcases among with rfl | rfl | rfl <;> simp [axisNames]
  exact ⟨⟨f, among, m, given, rfl, axis, path_method f.1 axis m.1⟩, by simp [Setting.lowered]⟩

theorem lowered_settings {s : String × Setting α} (member : s ∈ p.settings) : s.2.lowered = s.2 := by
  rw [settings_eq, List.mem_append] at member
  exact member.elim (fun own => (mem_ownSettings s own).2) fun method => (path_methodSettings method).2

def numberKeys : List String := ["nx", "ny", "nz", "MXG", "MYG", "NXPE"]

def switchKeys : List String := ["periodicX", "StaggerGrids", "ShiftXderivs", "IncIntShear", "TwistShift"]

def otherKeys : List String := ["periodicY", "paralleltransform", "ZMIN", "ZMAX"]

theorem straight_own : ∀ key ∈ numberKeys ++ switchKeys ++ otherKeys, ∃ head ∈ ownHeads, Options.path key = [head] := by
  simp [numberKeys, switchKeys, otherKeys, ownHeads]

/-- No method goes the way of another option. -/
theorem get?_own {key : String} (known : key ∈ numberKeys ++ switchKeys ++ otherKeys) :
    (p.options configured).get? key = (Options.lastOf (Options.path key) p.ownSettings).or (configured.get? key) := by
  obtain ⟨head, known, straight⟩ := straight_own key known
  have methods : Options.lastOf (Options.path key) p.methodSettings = none := by
    refine Options.lastOf_eq_none.mpr fun s member same => ?_
    obtain ⟨⟨f, -, m, -, -, axis, through⟩, -⟩ := path_methodSettings member
    rw [through, straight] at same
    exact axis_apart f.1 axis head known (List.cons.inj same).1
  rw [options, Options.get?_over ?_ fun s => lowered_settings, settings_eq, Options.lastOf_append, methods, Option.none_or]
  intro s member
  rw [settings_eq, List.mem_append] at member
  rw [straight]
  rcases member with own | method
  · obtain ⟨⟨other, -, way⟩, -⟩ := mem_ownSettings s own
    rw [way]
    exact .single other head
  · obtain ⟨⟨f, -, m, -, -, axis, through⟩, -⟩ := path_methodSettings method
    rw [through]
    exact .of_head (axis_apart f.1 axis head known)

/-- A method is laid over the one that the configuration has for its kind. -/
theorem get?_method {axis kind : String} (known : axis ∈ axisNames)
    (clear : ∀ f ∈ axes (α := α), f.1 = axis → ∀ m ∈ f.2 p,
      Options.Clear (Options.path (Text.lower m.1)) (Options.path (Text.lower kind))) :
    (p.options configured).get? (methodKey axis kind) =
      (Options.lastOf (Options.path (methodKey axis kind)) p.methodSettings).or (configured.get? (methodKey axis kind)) := by
  have own : Options.lastOf (Options.path (methodKey axis kind)) p.ownSettings = none := by
    refine Options.lastOf_eq_none.mpr fun s member same => ?_
    obtain ⟨⟨head, among, way⟩, -⟩ := mem_ownSettings s member
    rw [way, path_method axis known] at same
    exact axis_apart axis known head among (List.cons.inj same).1.symm
  rw [options, Options.get?_over ?_ fun s => lowered_settings, settings_eq, Options.lastOf_append, own, Option.or_none]
  intro s member
  rw [settings_eq, List.mem_append] at member
  rw [path_method axis known]
  rcases member with own | method
  · obtain ⟨⟨head, among, way⟩, -⟩ := mem_ownSettings s own
    rw [way]
    exact .of_head (axis_apart axis known head among).symm
  · obtain ⟨⟨f, among, m, given, -, -, through⟩, -⟩ := path_methodSettings method
    rw [through]
    by_cases same : f.1 = axis
    · rw [same]
      exact Options.clear_cons.mpr (clear f among same m given)
    · exact .of_head same

/-- A plain flag is written whether or not the file mentions it. One that is not mentioned is written as false, and hides the
setting of the configuration. -/
theorem load_switch (text : String) (configured : Options α) (usable : ((unset : Parameters α).load text).2 = none)
    {key : String} (known : key ∈ switchKeys) : (((unset : Parameters α).load text).1.options configured).get? key =
      some (.flag ((said Json.flag? key (fileEntries text)).getD false)) := by
  obtain ⟨f, member, rfl⟩ : ∃ f ∈ switches (α := α), f.1 = key := List.mem_map.mp known
  rw [get?_own (List.mem_append_left _ (List.mem_append_right _ known)), lastOf_switch f member,
    (fromFile usable).switch f member, Option.some_or]

/-- How options that a parameters file is laid over a configuration follow from the two. -/
structure Layered (file : List (String × Json)) (configured layered : Options α) : Prop where
  whole : ∀ key ∈ numberKeys, layered.get? key =
    (((said Json.whole? key file).filter (· ≠ 0)).map .whole).or (configured.get? key)
  flag : ∀ key ∈ switchKeys, ∀ b,
    said Json.flag? key file = some b → layered.get? key = some (.flag b)
  periodicY : layered.get? "periodicY" =
    (((given "periodicY" file).getLast?.bind Json.flag?).map .flag).or (configured.get? "periodicY")
  transform : layered.get? "paralleltransform" =
    (((said Json.text? "ParallelTransform" file).filter (· ≠ "")).map .text).or (configured.get? "paralleltransform")
  range : ∀ lo hi : α, (said Json.real? "ZMIN" file).getD 0 = lo → (said Json.real? "ZMAX" file).getD 0 = hi →
    layered.get? "ZMIN" = (if Scalar.same hi lo then configured.get? "ZMIN" else some (.real lo)) ∧
      layered.get? "ZMAX" = if Scalar.same hi lo then configured.get? "ZMAX" else some (.real hi)
  method : ∀ axis ∈ axisNames, ∀ kind,
    (∀ m ∈ tableOf axis file, Options.Clear (Options.path (Text.lower m.1)) (Options.path (Text.lower kind))) →
      (∃ m ∈ tableOf axis file, Options.path (Text.lower m.1) = Options.path (Text.lower kind) ∧
        layered.get? (methodKey axis kind) = some (.text m.2)) ∨
      (∀ m ∈ tableOf axis file, Options.path (Text.lower m.1) ≠ Options.path (Text.lower kind)) ∧
        layered.get? (methodKey axis kind) = configured.get? (methodKey axis kind)
  other : ∀ key head, (Options.path key).head? = some head → head ∉ ownHeads → head ∉ axisNames →
    layered.get? key = configured.get? key

/-- What is given and not the value that stands for nothing. -/
theorem given_unless {β γ : Type} [DecidableEq β] (x : Option β) (nothing : β) (g : β → γ) :
    (if x.getD nothing = nothing then none else some (g (x.getD nothing))) = (x.filter (· ≠ nothing)).map g := by
  cases x with
  | none => simp
  | some b => by_cases same : b = nothing <;> simp [Option.filter, same]

theorem load_layers (text : String) (configured : Options α) (usable : ((unset : Parameters α).load text).2 = none) :
    Layered (fileEntries text) configured (((unset : Parameters α).load text).1.options configured) := by
  have values := fromFile usable
  have written {key : String} (known : key ∈ switchKeys) := load_switch text configured usable known
  generalize ((unset : Parameters α).load text).1 = p at values written ⊢
  generalize fileEntries text = file at values written ⊢
  have ⟨periodic, transform, low, high⟩ := lastOf_rest (p := p)
  constructor
  case whole =>
    intro key known
    obtain ⟨f, member, rfl⟩ : ∃ f ∈ wholes (α := α), f.1 = key := List.mem_map.mp known
    rw [get?_own (List.mem_append_left _ (List.mem_append_left _ known)), lastOf_whole f member, values.whole f member,
      given_unless]
  case flag =>
    intro key known b told
    rw [written known, told, Option.getD_some]
  case periodicY =>
    rw [get?_own (by decide), periodic, values.periodicY]
  case transform =>
    rw [get?_own (by decide), transform, values.transform, given_unless]
  case range =>
    rintro lo hi rfl rfl
    have zLo : p.zMin = (said Json.real? "ZMIN" file).getD 0 := values.ends ("ZMIN", zMin) (by simp [ends])
    have zHi : p.zMax = (said Json.real? "ZMAX" file).getD 0 := values.ends ("ZMAX", zMax) (by simp [ends])
    rw [get?_own (by decide), get?_own (by decide), low, high, ← zLo, ← zHi]
    split <;> exact ⟨rfl, rfl⟩
  case method =>
    intro axis known kind clear
    have tables : ∀ f ∈ axes (α := α), f.1 = axis → f.2 p = tableOf axis file := by
      rintro f member rfl
      exact values.methods f member
    have way := path_method axis known kind
    rw [get?_method known fun f member same => tables f member same ▸ clear]
    cases last : Options.lastOf (Options.path (methodKey axis kind)) p.methodSettings with
    | none =>
      refine .inr ⟨fun m given same => ?_, rfl⟩
      obtain ⟨f, member, rfl⟩ : ∃ f ∈ axes (α := α), f.1 = axis := List.mem_map.mp known
      refine Options.lastOf_eq_none.mp last _ (mem_methodSettings.mpr ⟨f, member, m, tables f member rfl ▸ given, rfl⟩) ?_
      rw [way, path_method f.1 known, same]
    | some s =>
      obtain ⟨name, member, same⟩ := Options.mem_of_lastOf last
      obtain ⟨⟨f, among, m, given, equal, -, through⟩, -⟩ := path_methodSettings member
      obtain ⟨rfl, rfl⟩ := Prod.mk.inj equal
      obtain ⟨axis_, kind_⟩ := List.cons.inj (through.symm.trans (same.trans way))
      exact .inl ⟨m, tables f among axis_ ▸ given, kind_, rfl⟩
  case other =>
    intro key head starts own axis
    obtain ⟨way, straight⟩ : ∃ way, Options.path key = head :: way := by
      cases steps : Options.path key with
      | nil => simp [steps] at starts
      | cons first way => exact ⟨way, by simpa [steps] using starts⟩
    have differs : ∀ s ∈ p.settings, ∃ first rest, Options.path s.1 = first :: rest ∧ first ≠ head := by
      intro s member
      rw [settings_eq, List.mem_append] at member
      rcases member with mine | method
      · obtain ⟨⟨first, among, way⟩, -⟩ := mem_ownSettings s mine
        exact ⟨first, [], way, fun same => own (same ▸ among)⟩
      · obtain ⟨⟨f, -, m, -, -, among, through⟩, -⟩ := path_methodSettings method
        exact ⟨f.1, _, through, fun same => axis (same ▸ among)⟩
    have nothing : Options.lastOf (Options.path key) p.settings = none := by
      refine Options.lastOf_eq_none.mpr fun s member same => ?_
      obtain ⟨first, rest, steps, apart⟩ := differs s member
      exact apart (List.cons.inj (steps.symm.trans (same.trans straight))).1
    rw [options, Options.get?_over ?_ fun s => lowered_settings, nothing, Option.none_or]
    intro s member
    obtain ⟨first, rest, steps, apart⟩ := differs s member
    rw [steps, straight]
    exact .of_head apart

/-- A file sets one number and leaves another to the configuration. -/
theorem load_layers_partly : ((unset : Parameters Float).load "MXG: 3\n").2 = none ∧
    (((unset : Parameters Float).load "MXG: 3\n").1.options ⟨[("mxg", .whole 1), ("nxpe", .whole 2)]⟩).get? "MXG" =
      some (.whole 3) ∧
    (((unset : Parameters Float).load "MXG: 3\n").1.options ⟨[("mxg", .whole 1), ("nxpe", .whole 2)]⟩).get? "NXPE" =
      some (.whole 2) := by
  have usable : ((unset : Parameters Float).load "MXG: 3\n").2 = none := by decide +kernel
  have given : said Json.whole? "MXG" (fileEntries "MXG: 3\n") = some 3 := by decide +kernel
  have missing : said Json.whole? "NXPE" (fileEntries "MXG: 3\n") = none := by decide +kernel
  have layers := load_layers "MXG: 3\n" ⟨[("mxg", .whole 1), ("nxpe", .whole 2)]⟩ usable
  refine ⟨usable, ?_, ?_⟩
  · refine (layers.whole "MXG" (by decide)).trans ?_
    rw [given]
    rfl
  · refine (layers.whole "NXPE" (by decide)).trans ?_
    rw [missing]
    simp [Options.get?, Options.follow?, Named.find?]

/-- A zero in the file does not hide the setting of the configuration. -/
theorem zero_hides_nothing : ¬ ∀ (text : String) (configured : Options Float) (n : Int),
    ((unset : Parameters Float).load text).2 = none → said Json.whole? "MXG" (fileEntries text) = some n →
      (((unset : Parameters Float).load text).1.options configured).get? "MXG" = some (.whole n) := by
  intro hides
  have kept (p : Parameters Float) (zero : p.mxg = 0) :
      (p.options ⟨[("mxg", .whole 1)]⟩).get? "MXG" = some (.whole 1) := by
    rw [get?_own (by decide), lastOf_whole ("MXG", mxg) (by simp [wholes])]
    simp [zero, Options.get?, Options.follow?, Named.find?]
  have zero := hides "MXG: 0\n" ⟨[("mxg", .whole 1)]⟩ 0 (by decide +kernel) (by decide +kernel)
  have differ := (kept _ (by decide +kernel)).symm.trans zero
  exact absurd (Setting.whole.inj (Option.some.inj differ)) (by decide)

end Parameters

end HaloMesh
