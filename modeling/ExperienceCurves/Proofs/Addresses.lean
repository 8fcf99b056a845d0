import ExperienceCurves.Proofs.AtomicRequests

/-!
Addresses of profiles. Requests name the profiles that they publish or edit in their paths, where a
name is not empty and holds no slash. So every profile that requests lead to has an address: the
path that ends with its name leads to it and to no other resource.
-/
namespace ExperienceCurves.Service

theorem pieces_eq_splitOn (separator : Char) (text : List Char) :
    pieces separator text = text.splitOn separator := by
  induction text with
  | nil => rfl
  | cons c rest ih =>
    rw [List.splitOn_cons_eq_if_modifyHead, ← ih, pieces]
    cases hpieces : pieces separator rest with
    | nil => exact absurd hpieces (pieces_ne_nil separator rest)
    | cons piece others => simp only [beq_iff_eq, List.modifyHead_cons]

/-- No piece holds the separator. -/
theorem not_mem_of_mem_pieces {separator : Char} {text piece : List Char}
    (h : piece ∈ pieces separator text) : separator ∉ piece := by
  induction text generalizing piece with
  | nil =>
    rw [List.mem_singleton.1 h]
    exact List.not_mem_nil
  | cons c rest ih =>
    unfold pieces at h
    split at h
    · rcases List.mem_cons.1 h with rfl | h
      · exact List.not_mem_nil
      · exact ih h
    · next hother =>
      split at h
      · next first others hpieces =>
        rw [hpieces] at ih
        rcases List.mem_cons.1 h with rfl | h
        · exact List.not_mem_cons_of_ne_of_not_mem (Ne.symm hother) (ih List.mem_cons_self)
        · exact ih (List.mem_cons_of_mem _ h)
      · next hpieces => exact absurd hpieces (pieces_ne_nil separator rest)

theorem intercalate_cons_flatMap (separator : Char) (part : List Char) (parts : List (List Char)) :
    [separator].intercalate (part :: parts) = part ++ parts.flatMap (separator :: ·) := by
  induction parts generalizing part with
  | nil => simp
  | cons next rest ih => rw [List.intercalate_cons_cons, ih]; simp

/-- Pieces without the separator are found again, each behind one. -/
theorem pieces_flatMap {separator : Char} {parts : List (List Char)}
    (h : ∀ part ∈ parts, separator ∉ part) :
    pieces separator (parts.flatMap (separator :: ·)) = [] :: parts := by
  have hjoin := intercalate_cons_flatMap separator [] parts
  rw [List.nil_append] at hjoin
  rw [pieces_eq_splitOn, ← hjoin, List.splitOn_intercalate separator _ (List.cons_ne_nil _ _)]
  exact List.forall_mem_cons.2 ⟨List.not_mem_nil, h⟩

/-- A name that can be a part of a path. -/
structure IsPathPart (name : String) : Prop where
  nonempty : name ≠ ""
  noSlash : '/' ∉ name.toList

instance (name : String) : Decidable (IsPathPart name) :=
  decidable_of_iff (name ≠ "" ∧ '/' ∉ name.toList)
    ⟨fun h => ⟨h.1, h.2⟩, fun h => ⟨h.nonempty, h.noSlash⟩⟩

namespace Resource

/-- The names on the path to a resource. -/
def names : Resource → List String
  | overview => ["api"]
  | health => ["health"]
  | profiles => ["curves"]
  | profile name => ["curves", name]
  | requirement name level => ["curves", name, "required-exp", level]
  | table name => ["curves", name, "table"]
  | continuity name => ["curves", name, "continuity"]
  | segments name => ["curves", name, "segments"]
  | segment name id => ["curves", name, "segments", id]
  | redistribution name => ["curves", name, "redistribute"]
  | handles name => ["curves", name, "drag"]
  | range name id => ["curves", name, "segments", id, "range"]
  | mode name => ["curves", name, "mode"]
  | scale name => ["curves", name, "y-axis", "reset"]
  | evaluation => ["formulas", "evaluate"]
  | validation => ["formulas", "validate"]
  | characters => ["characters"]
  | character id => ["characters", id]
  | experience id => ["characters", id, "experience"]
  | stats id => ["characters", id, "stats"]

/-- The profile that a resource belongs to. -/
def profileName? : Resource → Option String
  | profile name => some name
  | requirement name _ => some name
  | table name => some name
  | continuity name => some name
  | segments name => some name
  | segment name _ => some name
  | redistribution name => some name
  | handles name => some name
  | range name _ => some name
  | mode name => some name
  | scale name => some name
  | _ => none

variable {resource : Resource} {name : String}

theorem ofNames_names (resource : Resource) : ofNames resource.names = some resource := by
  cases resource <;> rfl

theorem names_of_ofNames {names : List String} (h : ofNames names = some resource) :
    resource.names = names := by
  unfold ofNames at h
  split at h
  all_goals first
    | (obtain rfl := Option.some.inj h
       rfl)
    | cases h

theorem isPathPart_of_named {path : List Char} (h : named path = some resource)
    (hname : name ∈ resource.names) : IsPathPart name := by
  unfold named at h
  split at h
  · next names hpieces =>
    split at h
    · cases h
    · next hempty =>
      rw [names_of_ofNames h] at hname
      obtain ⟨piece, hpiece, rfl⟩ := List.mem_map.1 hname
      have hmem : piece ∈ pieces '/' path := hpieces ▸ List.mem_cons_of_mem _ hpiece
      refine ⟨?_, ?_⟩
      · intro hnone
        obtain rfl := String.ofList_eq_empty_iff.1 hnone
        exact hempty hpiece
      · rw [String.toList_ofList]
        exact not_mem_of_mem_pieces hmem
  · cases h

/-- No path leads to a resource with a name that is no part of a path. -/
theorem isPathPart_of_mem_names {path : String} (h : ofPath path = some resource)
    (hname : name ∈ resource.names) : IsPathPart name := by
  unfold ofPath at h
  cases hnamed : named path.toList with
  | some found =>
    rw [hnamed] at h
    obtain rfl := Option.some.inj h
    exact isPathPart_of_named hnamed hname
  | none =>
    rw [hnamed] at h
    change (if _ then named path.toList.dropLast else none) = _ at h
    split at h
    · exact isPathPart_of_named h hname
    · cases h

theorem mem_names_of_profileName? (h : resource.profileName? = some name) :
    name ∈ resource.names := by
  cases resource
  all_goals first
    | (obtain rfl := Option.some.inj h
       exact List.mem_cons_of_mem _ List.mem_cons_self)
    | cases h

theorem isPathPart_of_ofPath {path : String} (h : ofPath path = some resource)
    (hname : resource.profileName? = some name) : IsPathPart name :=
  isPathPart_of_mem_names h (mem_names_of_profileName? hname)

/-- The names of a resource, with a slash before each, lead to it. -/
theorem ofPath_of_toList {path : String} (hnames : ∀ name ∈ resource.names, IsPathPart name)
    (hpath : path.toList = (resource.names.map String.toList).flatMap ('/' :: ·)) :
    ofPath path = some resource := by
  have hpieces : pieces '/' path.toList = [] :: resource.names.map String.toList := by
    rw [hpath]
    exact pieces_flatMap (List.forall_mem_map.2 fun name hname => (hnames name hname).noSlash)
  have hempty : [] ∉ resource.names.map String.toList := by
    intro hmem
    obtain ⟨name, hname, hnone⟩ := List.mem_map.1 hmem
    exact (hnames name hname).nonempty (String.toList_eq_nil_iff.1 hnone)
  have hnamed : named path.toList = some resource := by
    unfold named
    rw [hpieces]
    dsimp only
    rw [if_neg hempty, List.map_map]
    have hsame : String.ofList ∘ String.toList = id := funext fun name => String.ofList_toList
    rw [hsame, List.map_id, ofNames_names]
  unfold ofPath
  rw [hnamed]
  rfl

/-- The address of a profile. -/
theorem ofPath_profile (hname : IsPathPart name) :
    ofPath ("/curves/" ++ name) = some (.profile name) :=
  ofPath_of_toList (List.forall_mem_cons.2 ⟨by decide, List.forall_mem_singleton.2 hname⟩)
    (by simp [names])

end Resource

namespace Command

variable {command : Command} {name : String}

/-- The profile that a command edits is the one of the resource. -/
theorem profileName?_of_edited? {r : Request} {resource : Resource} {method : Method}
    (h : ofResource r resource method = .ok command)
    (hname : command.edited? = some name) : resource.profileName? = some name := by
  unfold ofResource at h
  split at h
  all_goals first
    | (obtain rfl := Except.ok.inj h
       cases hname <;> rfl)
    | (obtain ⟨_, _, rfl⟩ := Outcome.map_eq_ok_iff.1 h
       cases hname <;> rfl)
    | (obtain ⟨_, _, hmake, _, rfl⟩ := Checked.seq_eq_valid_iff.1 (settled_eq_ok_iff.1 h)
       obtain ⟨_, _, rfl⟩ := Checked.map_eq_valid_iff.1 hmake
       cases hname)
    | cases h

theorem isPathPart_of_edited? {r : Request} (h : ofRequest r = .ok command)
    (hname : command.edited? = some name) : IsPathPart name := by
  obtain ⟨resource, hresource, h⟩ := resource_of_ofRequest h
  exact Resource.isPathPart_of_ofPath hresource (profileName?_of_edited? h hname)

end Command

namespace State

/-- Every profile is stored under a name that a path can hold. -/
def IsAddressed (s : State) : Prop :=
  ∀ name p, s.registry.find? name = some p → ∃ part : String, name = part ∧ IsPathPart part

theorem isAddressed_seeded : (seeded .usual).IsAddressed := by
  intro name p hp
  obtain ⟨preset, hpreset, rfl, rfl⟩ := Registry.preset_of_find?_seeded hp
  rcases List.mem_pair.1 hpreset with rfl | rfl
  · exact ⟨_, rfl, by decide, by decide⟩
  · exact ⟨_, rfl, by decide, by decide⟩

variable {s : State}

theorem IsAddressed.handle {r : Request} (freshId : String) (hs : s.IsShowable)
    (haddressed : s.IsAddressed) : (s.handle freshId r).1.IsAddressed := by
  cases hcommand : Command.ofRequest r with
  | error problem =>
    rw [handle_of_problem freshId hcommand]
    exact haddressed
  | ok command =>
    rw [handle_of_command freshId hcommand]
    have h := perform_transition freshId hs (Command.isSendable_of_ofRequest hcommand)
    generalize s.perform freshId command = result at h
    cases h with
    | refused => exact haddressed
    | shown => exact haddressed
    | published _ hedited hname =>
      intro name p hp
      rw [Dictionary.find?_store] at hp
      split at hp
      · next hsame =>
        exact ⟨_, hsame.trans hname, Command.isPathPart_of_edited? hcommand hedited⟩
      · exact haddressed name p hp
    | recorded => exact haddressed
    | torn => exact haddressed

theorem isAddressed_afterAll (requests : List (String × Request)) :
    (afterAll requests).IsAddressed :=
  afterAll_induction isAddressed_seeded (fun _ freshId _ hs h => h.handle freshId hs) requests

end State

end ExperienceCurves.Service
