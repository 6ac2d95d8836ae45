import LuaBytecode.Proofs.Configuration

/-!
# Options under a sequence of overrides

The values that options have are all valid. So overrides fail for a value of their own, whatever the
options are that they come upon, and it does not matter which of two come first if they are about
different options. Overrides that fail leave the options alone, and after a sequence of them an
option has the value that it was given last.
-/

namespace LuaBytecode.Options

/-! ### Valid values -/

def handlerNames : List Text :=
  ["strict", "ignore", "replace", "backslashreplace", "surrogateescape", "surrogatepass",
    "xmlcharrefreplace", "namereplace"]

/-- The values that an option may have. -/
def Valid : Name → Json → Prop
  | .verboseInstructions, v | .allowTrailingData, v => ∃ b, v = .bool b
  | .maxDepth, v => ∃ n : Nat, n ≤ 200 ∧ v = .int n
  | .stringErrors, v => ∃ t ∈ handlerNames, v = .string t

theorem mem_handlerNames_iff {t : Text} : t ∈ handlerNames ↔ ∃ p : Policy, t = p.name := by
  constructor
  · intro h
    have hall : handlerNames = Policy.all.map Policy.name := rfl
    rw [hall] at h
    obtain ⟨p, _, rfl⟩ := List.mem_map.mp h
    exact ⟨p, rfl⟩
  · rintro ⟨p, rfl⟩
    cases p <;> decide

theorem valid_value (o : Options) (name : Name) : Valid name (o.value name) := by
  cases name with
  | verboseInstructions | allowTrailingData => exact ⟨_, rfl⟩
  | maxDepth => exact ⟨_, o.maxDepth_le, rfl⟩
  | stringErrors => exact ⟨_, mem_handlerNames_iff.mpr ⟨_, rfl⟩, rfl⟩

theorem exists_of_valid {f : Name → Json} (h : ∀ name, Valid name (f name)) :
    ∃ o : Options, ∀ name, o.value name = f name := by
  obtain ⟨verbose, hverbose⟩ := h .verboseInstructions
  obtain ⟨trailing, htrailing⟩ := h .allowTrailingData
  obtain ⟨depth, hle, hdepth⟩ := h .maxDepth
  obtain ⟨_, hmem, hpolicy⟩ := h .stringErrors
  obtain ⟨policy, rfl⟩ := mem_handlerNames_iff.mp hmem
  refine ⟨⟨verbose, depth, trailing, policy, hle⟩, fun name => ?_⟩
  cases name with
  | verboseInstructions => exact hverbose.symm
  | maxDepth => exact hdepth.symm
  | allowTrailingData => exact htrailing.symm
  | stringErrors => exact hpolicy.symm

theorem exists_check_iff {d : Draft} :
    (∃ o, d.check = .ok o) ↔ ∀ name, Valid name (d.value name) := by
  simp only [Draft.check_eq_ok_iff]
  constructor
  · rintro ⟨o, ho⟩ name
    exact ho name ▸ o.valid_value name
  · exact exists_of_valid

/-- Values that come upon those of options are valid if all that come are. -/
theorem valid_getD_iff {o : Options} {given : Name → Option Json} :
    (∀ name, Valid name ((given name).getD (o.value name))) ↔
      ∀ name v, given name = some v → Valid name v := by
  constructor
  · intro h name v hv
    have hname := h name
    rwa [hv] at hname
  · intro h name
    cases hv : given name with
    | none => exact o.valid_value name
    | some v => exact h name v hv

theorem exists_layered_iff {o : Options} {given : Name → Option Json} {n : Name} :
    (∃ o' : Options, ∀ name, name ≠ n → o'.value name = (given name).getD (o.value name)) ↔
      ∀ name v, name ≠ n → given name = some v → Valid name v := by
  constructor
  · rintro ⟨o', ho'⟩ name v hname hv
    have hvalue := ho' name hname
    rw [hv, Option.getD_some] at hvalue
    exact hvalue ▸ o'.valid_value name
  · intro h
    have hvalid : ∀ name v, (if name = n then none else given name) = some v → Valid name v := by
      intro name v hv
      by_cases hname : name = n
      · rw [if_pos hname] at hv
        cases hv
      · rw [if_neg hname] at hv
        exact h name v hname hv
    obtain ⟨o', ho'⟩ := exists_of_valid (valid_getD_iff.mpr hvalid)
    refine ⟨o', fun name hname => ?_⟩
    rw [ho', if_neg hname]

/-! ### Members of an object -/

theorem setMember_all (f : Name → Json) (name : Name) (v : Json) :
    Json.setMember name.text v (Name.all.map fun n => (n.text, f n)) =
      Name.all.map fun n => (n.text, if n = name then v else f n) := by
  cases name <;> simp [Name.all, Json.setMember, Name.text_inj]

/-- Members that are set one after another come upon what is there. -/
theorem foldl_setMember {members : List (Text × Json)}
    (hknown : ∀ member ∈ members, isName member.1 = true) (hdistinct : (members.map (·.1)).Nodup)
    (f : Name → Json) :
    members.foldl (fun d member => Json.setMember member.1 member.2 d)
        (Name.all.map fun n => (n.text, f n)) =
      Name.all.map fun n => (n.text, (Json.member? n.text members).getD (f n)) := by
  induction members generalizing f with
  | nil => rfl
  | cons member rest ih =>
    obtain ⟨hfirst, hothers⟩ := List.forall_mem_cons.mp hknown
    obtain ⟨hnew, hrest⟩ := List.nodup_cons.mp hdistinct
    obtain ⟨name, hname⟩ := isName_iff.mp hfirst
    rw [List.foldl_cons, hname, setMember_all, ih hothers hrest]
    refine List.map_congr_left fun n _ => congrArg (Prod.mk n.text) ?_
    rw [member?_cons, hname]
    by_cases hn : n = name
    · subst hn
      rw [member?_of_notMem (hname ▸ hnew), if_pos rfl, if_pos rfl]
      rfl
    · rw [if_neg hn, if_neg fun h => hn (Name.text_inj.mp h).symm]

theorem exists_ofMembers_iff (a : Assignment) : (∃ o, ofMembers a.members = .ok o) ↔
    ∀ member ∈ a.members, ∃ name : Name, member.1 = name.text ∧ Valid name member.2 := by
  simp only [ofMembers_eq_ok_iff, isName_iff]
  constructor
  · rintro ⟨o, hknown, ho⟩ member hmem
    obtain ⟨name, hname⟩ := hknown member hmem
    have hmember : Json.member? name.text a.members = some member.2 :=
      (member?_eq_some_iff a.distinct).mpr (hname ▸ hmem)
    have hvalue := ho name
    rw [hmember, Option.getD_some] at hvalue
    exact ⟨name, hname, hvalue ▸ o.valid_value name⟩
  · intro h
    have hvalid : ∀ name v, Json.member? name.text a.members = some v → Valid name v := by
      intro name v hv
      obtain ⟨name', hname, hvalid⟩ := h _ ((member?_eq_some_iff a.distinct).mp hv)
      rwa [Name.text_inj.mp hname]
    obtain ⟨o, ho⟩ := exists_of_valid (valid_getD_iff.mpr hvalid)
    refine ⟨o, fun member hmem => ?_, ho⟩
    obtain ⟨name, hname, _⟩ := h member hmem
    exact ⟨name, hname⟩

theorem ofMembers_toMembers (o : Options) : ofMembers o.toMembers = .ok o := by
  rw [ofMembers_eq_ok_iff]
  refine ⟨fun member hmem => ?_, fun name => ?_⟩
  · obtain ⟨name, _, rfl⟩ := List.mem_map.mp (o.toMembers_eq_map ▸ hmem)
    exact isName_text name
  · rw [toMembers_eq_map, member?_all, Option.getD_some]

/-- The options of an object, written as one, are the defaults with its members set. -/
theorem toMembers_of_ofMembers {a : Assignment} {o : Options} (h : ofMembers a.members = .ok o) :
    o.toMembers = a.members.foldl (fun d member => Json.setMember member.1 member.2 d)
      ({} : Options).toMembers := by
  obtain ⟨hknown, ho⟩ := ofMembers_eq_ok_iff.mp h
  rw [toMembers_eq_map, toMembers_eq_map, foldl_setMember hknown a.distinct, funext ho]
  rfl

/-! ### Single steps -/

/-- Nothing is wrong but that the name of the policy holds a surrogate or a null character. -/
def Assignment.Unnameable (a : Assignment) : Prop :=
  (∀ name v, name ≠ .stringErrors → a.given? name = some v → Valid name v) ∧
    ∃ t, a.given? .stringErrors = some (.string t) ∧
      (t.hasSurrogate = true ∨ ∃ c ∈ t.codes, c.val = 0)

theorem exists_nameFault?_iff {t : Text} : (∃ g, Policy.nameFault? t = some g) ↔
    t.hasSurrogate = true ∨ ∃ c ∈ t.codes, c.val = 0 := by
  unfold Policy.nameFault?
  by_cases hsurrogate : t.hasSurrogate = true <;> simp [hsurrogate]

namespace Overrides

variable (s : Overrides) (o : Options)

/-- Whether overrides succeed does not depend on the options. -/
theorem exists_ok_iff : (∃ o', o.withOverrides s.members = .ok o') ↔
    ∀ name v, s.given? name = some v → Valid name v := by
  simp only [withOverrides_eq_check, exists_check_iff, value_applied, valid_getD_iff]

theorem exists_error_iff : (∃ f, o.withOverrides s.members = .error f) ↔
    ∃ name v, s.given? name = some v ∧ ¬Valid name v := by
  have hfails : (∃ f, o.withOverrides s.members = .error f) ↔
      ¬∃ o', o.withOverrides s.members = .ok o' := by
    cases o.withOverrides s.members <;> simp
  rw [hfails, exists_ok_iff]
  simp only [Classical.not_forall, exists_prop]

theorem eq_policy_iff {g : PolicyFault} : o.withOverrides s.members = .error (.policy g) ↔
    (∀ name v, name ≠ .stringErrors → s.given? name = some v → Valid name v) ∧
      ∃ t, s.given? .stringErrors = some (.string t) ∧ Policy.nameFault? t = some g := by
  rw [withOverrides_eq_check, Draft.layered_eq_policy_iff (s.value_applied o),
    exists_layered_iff]

theorem exists_other_iff :
    (∃ f, o.withOverrides s.members = .error f ∧ f.isConfiguration = false) ↔ s.Unnameable := by
  rw [Assignment.Unnameable]
  simp only [← exists_nameFault?_iff]
  constructor
  · rintro ⟨f, hf, hother⟩
    rcases Draft.isConfiguration_of_check ((s.withOverrides_eq_check o).symm.trans hf) with
      hconfiguration | ⟨g, rfl⟩
    · cases hother.symm.trans hconfiguration
    · obtain ⟨hothers, t, ht, hfault⟩ := (s.eq_policy_iff o).mp hf
      exact ⟨hothers, t, ht, g, hfault⟩
  · rintro ⟨hothers, t, ht, g, hfault⟩
    exact ⟨_, (s.eq_policy_iff o).mpr ⟨hothers, t, ht, hfault⟩, rfl⟩

/-- Two overrides that are about different options may change places. -/
theorem exists_swapped {s t : Overrides} {o o₁ o₂ : Options}
    (hdisjoint : ∀ name, s.given? name = none ∨ t.given? name = none)
    (hs : o.withOverrides s.members = .ok o₁) (ht : o₁.withOverrides t.members = .ok o₂) :
    ∃ o₃, o.withOverrides t.members = .ok o₃ ∧ o₃.withOverrides s.members = .ok o₂ := by
  have hvalid := (t.exists_ok_iff o₁).mp ⟨o₂, ht⟩
  obtain ⟨o₃, ho₃⟩ := (t.exists_ok_iff o).mpr hvalid
  refine ⟨o₃, ho₃, eq_ok_iff.mpr fun name => ?_⟩
  rw [eq_ok_iff.mp ht, eq_ok_iff.mp hs, eq_ok_iff.mp ho₃]
  rcases hdisjoint name with hnone | hnone
  · rw [hnone]
    rfl
  · rw [hnone]
    rfl

end Overrides

/-! ### Sequences -/

/-- The options after a step; one that fails leaves them as they are. -/
def step (o : Options) (s : Overrides) : Options :=
  match o.withOverrides s.members with
  | .ok o' => o'
  | .error _ => o

def after (o : Options) (steps : List Overrides) : Options := steps.foldl step o

/-- What a step gives an option, if it succeeds. -/
def assigned? (o : Options) (s : Overrides) (name : Name) : Option Json :=
  match o.withOverrides s.members with
  | .ok _ => s.given? name
  | .error _ => none

/-- The values that an option is given by successful steps, the first one first. -/
def assigned (name : Name) : Options → List Overrides → List Json
  | _, [] => []
  | o, s :: steps => (o.assigned? s name).toList ++ assigned name (o.step s) steps

theorem value_step (o : Options) (s : Overrides) (name : Name) :
    (o.step s).value name = (o.assigned? s name).getD (o.value name) := by
  unfold step assigned?
  cases hs : o.withOverrides s.members with
  | ok o' => exact Overrides.eq_ok_iff.mp hs name
  | error f => rfl

/-- The value that an option is given last stays; the induction is on the steps, from any options. -/
theorem value_after (o : Options) (steps : List Overrides) (name : Name) :
    (o.after steps).value name = (assigned name o steps).getLast?.getD (o.value name) := by
  induction steps generalizing o with
  | nil => rfl
  | cons s steps ih =>
    have hafter : o.after (s :: steps) = (o.step s).after steps := rfl
    rw [hafter, ih, value_step, assigned, List.getLast?_append]
    cases (assigned name (o.step s) steps).getLast? <;> cases o.assigned? s name <;> rfl

/-- An object gives options just if it names nothing else and its values are valid, and then they are
the defaults with its members set; written as an object, options give themselves. Overrides fail just
if one of their values is invalid, as a configuration unless only the name of the policy cannot be
looked up; then nothing changes. After a sequence of overrides every option has the value that it was
given last by any that succeeded, and a valid one. Two that succeed may change places if they are
about different options. -/
theorem overrides_compose (a : Assignment) (o : Options) (steps : List Overrides) :
    ((∃ o', ofMembers a.members = .ok o') ↔
      ∀ member ∈ a.members, ∃ name : Name, member.1 = name.text ∧ Valid name member.2) ∧
    (∀ o', ofMembers a.members = .ok o' → o'.toMembers =
      a.members.foldl (fun d member => Json.setMember member.1 member.2 d)
        ({} : Options).toMembers) ∧
    ofMembers o.toMembers = .ok o ∧
    (∀ s : Overrides,
      ((∃ f, o.withOverrides s.members = .error f) ↔
        ∃ name v, s.given? name = some v ∧ ¬Valid name v) ∧
      ((∃ f, o.withOverrides s.members = .error f ∧ f.isConfiguration = false) ↔
        s.Unnameable) ∧
      ∀ f, o.withOverrides s.members = .error f → o.step s = o) ∧
    (∀ name, (o.after steps).value name =
        (assigned name o steps).getLast?.getD (o.value name) ∧
      Valid name ((o.after steps).value name)) ∧
    ∀ (s t : Overrides) (o₁ o₂ : Options),
      (∀ name, s.given? name = none ∨ t.given? name = none) →
      o.withOverrides s.members = .ok o₁ → o₁.withOverrides t.members = .ok o₂ →
      ∃ o₃, o.withOverrides t.members = .ok o₃ ∧ o₃.withOverrides s.members = .ok o₂ := by
  refine ⟨exists_ofMembers_iff a, fun _ => toMembers_of_ofMembers, ofMembers_toMembers o,
    fun s => ⟨s.exists_error_iff o, s.exists_other_iff o, fun f hf => ?_⟩,
    fun name => ⟨value_after o steps name, valid_value _ name⟩,
    fun s t o₁ o₂ => Overrides.exists_swapped⟩
  rw [step, hf]

def shallow : Overrides where
  members := [("max_depth", .int 7), ("string_errors", .null)]
  known := by decide
  distinct := by decide

/-- The first value is valid, but the second is a boolean and no integer. -/
def halfValid : Overrides where
  members := [("allow_trailing_data", .bool true), ("max_depth", .bool true)]
  known := by decide
  distinct := by decide

def strictly : Overrides where
  members := [("string_errors", .string "strict")]
  known := by decide
  distinct := by decide

theorem overrides_compose_mixed : ∃ o₁ o₂ o₃ : Options,
    (∀ name, shallow.given? name = none ∨ strictly.given? name = none) ∧
      ({} : Options).withOverrides shallow.members = .ok o₁ ∧
      o₁.withOverrides strictly.members = .ok o₂ ∧
      ({} : Options).withOverrides strictly.members = .ok o₃ ∧
      o₃.withOverrides shallow.members = .ok o₂ ∧
      ofMembers strictly.members = .ok o₃ ∧
      o₃.toMembers = Json.setMember "string_errors" (.string "strict") ({} : Options).toMembers ∧
      ({} : Options).step halfValid = {} ∧
      (({} : Options).after [shallow, halfValid, strictly]).value .maxDepth = .int 7 := by
  obtain ⟨_, hmembers, _, hstep, hafter, hswap⟩ :=
    overrides_compose strictly.toAssignment {} [shallow, halfValid, strictly]
  have hdisjoint : ∀ name, shallow.given? name = none ∨ strictly.given? name = none := by
    intro name
    cases name with
    | maxDepth => exact .inr rfl
    | _ => exact .inl rfl
  have hshallow : ({} : Options).withOverrides shallow.members = .ok { maxDepth := 7 } := rfl
  have hstrictly : ({ maxDepth := 7 } : Options).withOverrides strictly.members =
      .ok { maxDepth := 7, stringErrors := .strict } := rfl
  have hobject : ofMembers strictly.members = .ok { stringErrors := .strict } := rfl
  obtain ⟨o₃, ho₃, hswapped⟩ := hswap shallow strictly _ _ hdisjoint hshallow hstrictly
  cases ho₃
  exact ⟨_, _, _, hdisjoint, hshallow, hstrictly, rfl, hswapped, hobject, hmembers _ hobject,
    (hstep halfValid).2.2 _ rfl, (hafter .maxDepth).1⟩

/-- The name of the policy is one surrogate. -/
def surrogateName : Overrides where
  members := [("string_errors", .string ⟨[.ofNat 0xD800]⟩)]
  known := by decide
  distinct := by decide

/-- Overrides with an invalid value may fail otherwise than as a configuration. -/
theorem overrides_not_configuration :
    ¬ ∀ (o : Options) (s : Overrides),
      (∀ member ∈ s.members, ∀ t, member.2 = .string t → ∀ c ∈ t.codes, c.val ≠ 0) →
      ((∃ f, o.withOverrides s.members = .error f ∧ f.isConfiguration = true) ↔
        ∃ name v, s.given? name = some v ∧ ¬Valid name v) := by
  intro h
  have hplain : ∀ member ∈ surrogateName.members, ∀ t, member.2 = .string t →
      ∀ c ∈ t.codes, c.val ≠ 0 := by
    intro member hmem t ht c hc
    obtain rfl := List.mem_singleton.mp hmem
    cases ht
    obtain rfl := List.mem_singleton.mp hc
    decide
  have hunnameable : surrogateName.Unnameable := by
    refine ⟨fun name v hname hv => ?_, ⟨[.ofNat 0xD800]⟩, rfl, .inl rfl⟩
    cases name with
    | stringErrors => exact absurd rfl hname
    | _ => cases hv
  obtain ⟨f, hf, hother⟩ := (surrogateName.exists_other_iff {}).mpr hunnameable
  have hinvalid := (surrogateName.exists_error_iff {}).mp ⟨f, hf⟩
  obtain ⟨_, hf', hconfiguration⟩ := (h {} surrogateName hplain).mpr hinvalid
  cases hf.symm.trans hf'
  cases hother.symm.trans hconfiguration

end LuaBytecode.Options
