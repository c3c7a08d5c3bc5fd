import HaloMesh.Proofs.DefaultDerivatives

/-! The methods that settings choose. The most specific setting about a family decides. It may be shared with other
families, so that it is passed over where the family does not have its method, but a name that no method has is refused
wherever it decides. -/

namespace HaloMesh

theorem mapM_fails {ι β ε : Type} {items : List ι} {f : ι → Except ε β} :
    (∃ e, items.mapM f = .error e) ↔ ∃ item ∈ items, ∃ e, f item = .error e := by
  induction items with
  | nil => simp [pure, Except.pure]
  | cons item rest ih =>
    rw [List.exists_mem_cons_iff, ← ih, List.mapM_cons]
    cases first : f item with
    | error e => simp [bind, Except.bind]
    | ok value => cases later : rest.mapM f <;> simp [bind, Except.bind, pure, Except.pure]

theorem finish_fails {β γ ε : Type} {r : Except ε β} {g : β → γ} :
    (∃ e, (r >>= fun b => .ok (g b)) = .error e) ↔ ∃ e, r = .error e := by
  cases r <;> simp [bind, Except.bind]

variable {α : Type} [Scalar α]

/-- Whether there is a kernel for a method of a family along an axis. -/
def Family.Serves (α : Type) [Scalar α] (family : Family) (axis : Axis) (method : Method) : Prop :=
  ∃ k : Kernel α, Kernel.lookup axis family method = .ok k

theorem Family.serves_iff {family : Family} {axis : Axis} {method : Method} :
    family.Serves α axis method ↔ family.admit axis method = .ok () := by
  refine ⟨fun serves => ?_, Kernel.exists_lookup⟩
  obtain ⟨k, found⟩ := serves
  rw [Kernel.lookup] at found
  cases admitted : family.admit axis method with
  | error e =>
    rw [admitted] at found
    cases found
  | ok _ => rfl

namespace Defaults

variable {o : Options α} {axis : Axis} {family : Family} {name : String} {method : Method} {d : Defaults}
  {warnings : List String}

/-- The name of a setting in the section of an axis. -/
def settingName (axis : Axis) (key : String) : String := sectionName axis ++ "." ++ key

/-- The setting that decides about a family: its own if there is one, else the one of its kind, else the one for all
kinds. A family that is not staggered has the key of its kind for its own. -/
inductive Decides (o : Options α) (axis : Axis) (family : Family) : String → Prop where
  | own (given : o.isSet (settingName axis family.key) = true) : Decides o axis family (settingName axis family.key)
  | kind (noOwn : o.isSet (settingName axis family.key) = false)
      (given : o.isSet (settingName axis family.kind.key) = true) : Decides o axis family (settingName axis family.kind.key)
  | all (noOwn : o.isSet (settingName axis family.key) = false)
      (noKind : o.isSet (settingName axis family.kind.key) = false)
      (given : o.isSet (settingName axis "all") = true) : Decides o axis family (settingName axis "all")

omit [Scalar α] in
theorem find_setting (o : Options α) (axis : Axis) (family : Family) :
    ((keys family).map (settingName axis)).find? o.isSet =
      if o.isSet (settingName axis family.key) then some (settingName axis family.key)
      else if o.isSet (settingName axis family.kind.key) then some (settingName axis family.kind.key)
      else if o.isSet (settingName axis "all") then some (settingName axis "all") else none := by
  obtain ⟨kind, staggered⟩ := family
  cases staggered with
  | false =>
    have own : (⟨kind, false⟩ : Family).key = kind.key := by simp [Family.key]
    simp only [keys, own, Bool.false_eq_true, ↓reduceIte, List.nil_append, List.map_cons, List.map_nil, List.find?_cons,
      List.find?_nil]
    cases o.isSet (settingName axis kind.key) <;> cases o.isSet (settingName axis "all") <;> rfl
  | true =>
    simp only [keys, ↓reduceIte, List.cons_append, List.nil_append, List.map_cons, List.map_nil, List.find?_cons,
      List.find?_nil]
    cases o.isSet (settingName axis (Family.key ⟨kind, true⟩)) <;> cases o.isSet (settingName axis kind.key) <;>
      cases o.isSet (settingName axis "all") <;> rfl

omit [Scalar α] in
theorem decides_iff : Decides o axis family name ↔ ((keys family).map (settingName axis)).find? o.isSet = some name := by
  rw [find_setting]
  constructor
  · intro decides
    cases decides with
    | own given => simp [given]
    | kind noOwn given => simp [noOwn, given]
    | all noOwn noKind given => simp [noOwn, noKind, given]
  · intro found
    split at found
    next given => exact Option.some.inj found ▸ .own given
    next noOwn =>
      rw [Bool.not_eq_true] at noOwn
      split at found
      next given => exact Option.some.inj found ▸ .kind noOwn given
      next noKind =>
        rw [Bool.not_eq_true] at noKind
        split at found
        next given => exact Option.some.inj found ▸ .all noOwn noKind given
        next => cases found

omit [Scalar α] in
theorem Decides.unique {other : String} (first : Decides o axis family name) (second : Decides o axis family other) :
    other = name :=
  Option.some.inj ((decides_iff.mp second).symm.trans (decides_iff.mp first))

theorem choose_unset (unset : ∀ name, ¬ Decides o axis family name) : choose o axis family = .ok (family.fallback, []) := by
  have nothing : ((keys family).map (settingName axis)).find? o.isSet = none :=
    Option.eq_none_iff_forall_ne_some.mpr fun name found => unset name (decides_iff.mpr found)
  unfold settingName at nothing
  simp only [choose, nothing]

theorem choose_unknown (decides : Decides o axis family name) (unknown : Method.ofKey? (o.text name "") = none) :
    choose o axis family = .error (.within (.option name) (.unknownOptionMethod (o.text name "") family)) := by
  have found := decides_iff.mp decides
  unfold settingName at found
  simp only [choose, found, unknown]

theorem choose_named (decides : Decides o axis family name) (named : Method.ofKey? (o.text name "") = some method) :
    ( family.admit axis method = .ok () → choose o axis family = .ok (method, [])) ∧
      ∀ e, family.admit axis method = .error e →
        (name = settingName axis family.key → choose o axis family = .error (.within (.option name) e)) ∧
          (name ≠ settingName axis family.key → ∃ notes, choose o axis family = .ok (family.fallback, notes)) := by
  have found := decides_iff.mp decides
  unfold settingName at found ⊢
  refine ⟨fun admitted => ?_, fun e refused => ⟨fun own => ?_, fun shared => ?_⟩⟩
  · simp only [choose, found, named, admitted]
  · simp only [choose, found, named, refused, if_pos own]
  · simp only [choose, found, named, refused, if_neg shared]
    exact ⟨_, rfl⟩

/-- A setting cannot be followed if its text names no method, or if it is about one family only and names a method that
this family does not have. -/
def Refused (o : Options α) (axis : Axis) (family : Family) (name : String) : Prop :=
  Method.ofKey? (o.text name "") = none ∨ name = settingName axis family.key ∧
    ∃ method, Method.ofKey? (o.text name "") = some method ∧ ¬ family.Serves α axis method

theorem choose_fails : (∃ e, choose o axis family = .error e) ↔
    ∃ name, Decides o axis family name ∧ Refused o axis family name := by
  constructor
  · rintro ⟨e, failed⟩
    by_cases unset : ∀ name, ¬ Decides o axis family name
    · cases failed.symm.trans (choose_unset unset)
    simp only [not_forall, not_not] at unset
    obtain ⟨name, decides⟩ := unset
    refine ⟨name, decides, ?_⟩
    cases named : Method.ofKey? (o.text name "") with
    | none => exact .inl named
    | some method =>
      refine .inr ?_
      obtain ⟨follows, passes⟩ := choose_named decides named
      cases admitted : family.admit axis method with
      | ok _ => cases failed.symm.trans (follows admitted)
      | error refusal =>
        refine ⟨?_, method, named, fun serves => ?_⟩
        · by_contra shared
          obtain ⟨notes, chosen⟩ := (passes refusal admitted).2 shared
          cases failed.symm.trans chosen
        · cases admitted.symm.trans (Family.serves_iff.mp serves)
  · rintro ⟨name, decides, unknown | ⟨own, method, named, missing⟩⟩
    · exact ⟨_, choose_unknown decides unknown⟩
    · cases admitted : family.admit axis method with
      | ok _ => exact absurd (Family.serves_iff.mpr admitted) missing
      | error refusal => exact ⟨_, ((choose_named decides named).2 refusal admitted).1 own⟩

/-- A family gets the method that its setting names if it has this method, and else the one it falls back on. -/
theorem choose_settles (chosen : choose o axis family = .ok (method, warnings)) :
    (∀ name named, Decides o axis family name → Method.ofKey? (o.text name "") = some named →
      family.Serves α axis named → method = named) ∧
    ((∀ name named, Decides o axis family name → Method.ofKey? (o.text name "") = some named →
      ¬ family.Serves α axis named) → method = family.fallback) := by
  refine ⟨fun name named decides names serves => ?_, fun missing => ?_⟩
  · cases chosen.symm.trans ((choose_named decides names).1 (Family.serves_iff.mp serves))
    rfl
  · by_cases unset : ∀ name, ¬ Decides o axis family name
    · cases chosen.symm.trans (choose_unset unset)
      rfl
    simp only [not_forall, not_not] at unset
    obtain ⟨name, decides⟩ := unset
    cases names : Method.ofKey? (o.text name "") with
    | none => cases chosen.symm.trans (choose_unknown decides names)
    | some named =>
      cases admitted : family.admit axis named with
      | ok _ => exact absurd (Family.serves_iff.mpr admitted) (missing name named decides names)
      | error refusal =>
        obtain ⟨refuses, passes⟩ := (choose_named decides names).2 refusal admitted
        by_cases own : name = settingName axis family.key
        · cases chosen.symm.trans (refuses own)
        · obtain ⟨notes, passed⟩ := passes own
          cases chosen.symm.trans passed
          rfl

theorem read_fails : (∃ e, Defaults.read o = .error e) ↔
    ∃ axis family, family.isTable = true ∧ ∃ e, choose o axis family = .error e := by
  have whole : (∃ e, Defaults.read o = .error e) ↔ ∃ place ∈ places, ∃ e, choose o place.1 place.2 = .error e := by
    refine finish_fails.trans (mapM_fails.trans ?_)
    exact exists_congr fun place => and_congr_right fun _ => finish_fails
  rw [whole]
  simp only [Prod.exists, mem_places]

end Defaults

/-- The defaults follow the most specific setting about each family. They cannot be read exactly if one of these settings
has to be refused, and a family that does not have the method it would share with others keeps the simplest one. -/
theorem defaults_follow_settings (o : Options α) :
    ((∃ e, Defaults.read o = .error e) ↔ ∃ axis family, family.isTable = true ∧
      ∃ name, Defaults.Decides o axis family name ∧ Defaults.Refused o axis family name) ∧
    ∀ d warnings, Defaults.read o = .ok (d, warnings) → ∀ axis family, family.isTable = true →
      (∀ name method, Defaults.Decides o axis family name → Method.ofKey? (o.text name "") = some method →
        family.Serves α axis method → d.method axis family = method) ∧
      ((∀ name method, Defaults.Decides o axis family name → Method.ofKey? (o.text name "") = some method →
        ¬ family.Serves α axis method) →
        d.method axis family = if family.kind = .upwind ∨ family.kind = .flux then .u1 else .c2) ∧
      ∃ k : Kernel α, d.resolve axis family .standard = .ok k := by
  refine ⟨?_, fun d warnings read axis family table => ?_⟩
  · simp only [Defaults.read_fails, Defaults.choose_fails]
  · obtain ⟨notes, chosen⟩ := Defaults.method_chosen read axis table
    obtain ⟨follows, falls⟩ := Defaults.choose_settles chosen
    refine ⟨follows, fun missing => (falls missing).trans ?_, Defaults.exists_default read axis table⟩
    obtain ⟨kind, staggered⟩ := family
    cases kind <;> rfl

/-! Settings of every kind: one for all families, one for a kind, and one for a single family, and others that fit in one
direction only. -/

def layeredOptions : Options Whole :=
  ⟨[("ddx", .table [("all", .text "W3"), ("first", .text " c4 "), ("upwindstag", .text "C2")]),
    ("ddz", .table [("all", .text "fft")])]⟩

def spectralOptions : Options Whole := ⟨[("ddy", .table [("second", .text "FFT")])]⟩

theorem defaults_follow_layers :
    (∃ d warnings, Defaults.read layeredOptions = .ok (d, warnings) ∧
      (d.method .x ⟨.first, true⟩ = .c4 ∧ d.method .x ⟨.upwind, true⟩ = .c2 ∧ d.method .x ⟨.upwind, false⟩ = .w3 ∧
        d.method .z ⟨.first, false⟩ = .fft) ∧
      (d.method .x ⟨.flux, false⟩ = .u1 ∧ d.method .y ⟨.second, false⟩ = .c2) ∧
      ∃ k : Kernel Whole, d.resolve .z ⟨.first, true⟩ .standard = .ok k) ∧
    ∃ e, Defaults.read spectralOptions = .error e := by
  have readable : (Defaults.read layeredOptions).isOk = true := by decide +kernel
  cases read : Defaults.read layeredOptions with
  | error e =>
    rw [read] at readable
    cases readable
  | ok p =>
    obtain ⟨d, warnings⟩ := p
    have settled (axis : Axis) (family : Family) (table : family.isTable = true) :=
      (defaults_follow_settings layeredOptions).2 d warnings read axis family table
    have serves {family : Family} {axis : Axis} {method : Method} (admitted : family.admit axis method = .ok ()) :
        family.Serves Whole axis method := Family.serves_iff.mpr admitted
    refine ⟨⟨d, warnings, rfl, ⟨?_, ?_, ?_, ?_⟩, ⟨?_, ?_⟩, (settled .z ⟨.first, true⟩ rfl).2.2⟩, ?_⟩
    · exact (settled .x ⟨.first, true⟩ rfl).1 _ .c4 (.kind (by decide +kernel) (by decide +kernel)) (by decide +kernel)
        (serves rfl)
    · exact (settled .x ⟨.upwind, true⟩ rfl).1 _ .c2 (.own (by decide +kernel)) (by decide +kernel) (serves rfl)
    · exact (settled .x ⟨.upwind, false⟩ rfl).1 _ .w3
        (.all (by decide +kernel) (by decide +kernel) (by decide +kernel)) (by decide +kernel) (serves rfl)
    · exact (settled .z ⟨.first, false⟩ rfl).1 _ .fft
        (.all (by decide +kernel) (by decide +kernel) (by decide +kernel)) (by decide +kernel) (serves rfl)
    · refine (settled .x ⟨.flux, false⟩ rfl).2.1 fun name method decides named serves => ?_
      obtain rfl : name = Defaults.settingName .x "all" :=
        Defaults.Decides.unique (.all (by decide +kernel) (by decide +kernel) (by decide +kernel)) decides
      obtain rfl : Method.w3 = method :=
        Option.some.inj (Eq.trans (b := Method.ofKey? (layeredOptions.text _ "")) (by decide +kernel) named)
      cases Family.serves_iff.mp serves
    · refine (settled .y ⟨.second, false⟩ rfl).2.1 fun name method decides => ?_
      have unset : ((Defaults.keys ⟨.second, false⟩).map (Defaults.settingName .y)).find? layeredOptions.isSet = none := by
        decide +kernel
      cases unset.symm.trans (Defaults.decides_iff.mp decides)
    · exact (defaults_follow_settings spectralOptions).1.mpr ⟨.y, ⟨.second, false⟩, rfl, _, .own (by decide +kernel),
        .inr ⟨rfl, .fft, by decide +kernel, fun serves => nomatch Family.serves_iff.mp serves⟩⟩

end HaloMesh
