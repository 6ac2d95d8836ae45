import LuaBytecode.Options.Basic
import LuaBytecode.Proofs.Action

/-!
# Options as layers of values

Options are told by the values that an object of them has. The checks let a value pass just if there
are options with that value. So the options of an object, and those that overrides give, exist if
some options have the values of the upper layer, and those of the layer below where it has none.
-/

namespace LuaBytecode

theorem Policy.ofName?_eq_some_iff {name : Text} {p : Policy} :
    Policy.ofName? name = some p ↔ name = p.name := by
  constructor
  · intro h
    have hname := List.find?_some h
    exact (of_decide_eq_true hname).symm
  · rintro rfl
    cases p <;> decide

theorem Policy.nameFault?_name (p : Policy) : Policy.nameFault? p.name = none := by
  cases p <;> decide

namespace Options

def value (o : Options) : Name → Json
  | .verboseInstructions => .bool o.verboseInstructions
  | .maxDepth => .int o.maxDepth
  | .allowTrailingData => .bool o.allowTrailingData
  | .stringErrors => .string o.stringErrors.name

theorem Name.text_inj {m n : Name} : m.text = n.text ↔ m = n := by
  cases m <;> cases n <;> decide

theorem isName_text (name : Name) : isName name.text = true := by
  cases name <;> decide

theorem isName_iff {t : Text} : isName t = true ↔ ∃ name : Name, t = name.text := by
  constructor
  · intro h
    obtain ⟨name, _, hname⟩ := List.any_eq_true.mp h
    exact ⟨name, (of_decide_eq_true hname).symm⟩
  · rintro ⟨name, rfl⟩
    exact isName_text name

theorem text_ne_reservedName (name : Name) : name.text ≠ reservedName := by
  cases name <;> decide

theorem eq_of_value {o o' : Options} (h : ∀ name, o.value name = o'.value name) : o = o' := by
  obtain ⟨verbose, depth, trailing, policy, hdepth⟩ := o
  obtain ⟨verbose', depth', trailing', policy', hdepth'⟩ := o'
  cases Json.bool.inj (h .verboseInstructions)
  cases Int.ofNat.inj (Json.int.inj (h .maxDepth))
  cases Json.bool.inj (h .allowTrailingData)
  have hpolicy := Policy.ofName?_eq_some_iff.mpr (Json.string.inj (h .stringErrors))
  cases (Policy.ofName?_eq_some_iff.mpr rfl).symm.trans hpolicy
  rfl

/-! ### What the checks let pass -/

namespace Draft

def value (d : Draft) : Name → Json
  | .verboseInstructions => d.verboseInstructions
  | .maxDepth => d.maxDepth
  | .allowTrailingData => d.allowTrailingData
  | .stringErrors => d.stringErrors

theorem value_overwrite (d : Draft) (members : List (Text × Json)) (name : Name) :
    (d.overwrite members).value name =
      (Json.member? name.text members).getD (d.value name) := by
  cases name <;> rfl

theorem checkBoolean_eq_ok_iff {name : Name} {v : Json} {b : Bool} :
    checkBoolean name v = .ok b ↔ v = .bool b := by
  cases v with
  | bool c => simp [checkBoolean]
  | _ => exact ⟨nofun, nofun⟩

theorem checkDepth_eq_ok_iff {v : Json} {n : { n : Nat // n ≤ maxDepthLimit }} :
    checkDepth v = .ok n ↔ v = .int n.val := by
  cases v with
  | int i =>
    cases i with
    | ofNat m =>
      by_cases hm : m ≤ maxDepthLimit
      · simp only [checkDepth, dif_pos hm, Except.ok.injEq, Subtype.ext_iff, Json.int.injEq,
          Int.ofNat_eq_natCast, Int.natCast_inj]
      · simp only [checkDepth, dif_neg hm]
        refine ⟨nofun, fun h => ?_⟩
        cases h
        exact absurd n.property hm
    | negSucc m => exact ⟨nofun, nofun⟩
  | _ => exact ⟨nofun, nofun⟩

theorem checkPolicy_eq_ok_iff {v : Json} {p : Policy} :
    checkPolicy v = .ok p ↔ v = .string p.name := by
  constructor
  · intro h
    cases v with
    | string name =>
      simp only [checkPolicy] at h
      split at h
      · cases h
      · rename_i policy hfault hpolicy
        cases h
        rw [Policy.ofName?_eq_some_iff.mp hpolicy]
      · cases h
    | _ => cases h
  · rintro rfl
    simp only [checkPolicy, Policy.nameFault?_name, Policy.ofName?_eq_some_iff.mpr rfl]

/-- A draft is accepted just if it has the values of some options. -/
theorem check_eq_ok_iff {d : Draft} {o : Options} :
    d.check = .ok o ↔ ∀ name, o.value name = d.value name := by
  simp only [check, Action.bind_eq_ok_iff, checkBoolean_eq_ok_iff, checkPolicy_eq_ok_iff]
  constructor
  · rintro ⟨verbose, hverbose, trailing, htrailing, ⟨depth, hle⟩, hdepth, policy, hpolicy, ho⟩
    cases ho
    rw [checkDepth_eq_ok_iff] at hdepth
    intro name
    cases name with
    | verboseInstructions => exact hverbose.symm
    | maxDepth => exact hdepth.symm
    | allowTrailingData => exact htrailing.symm
    | stringErrors => exact hpolicy.symm
  · intro h
    exact ⟨o.verboseInstructions, (h .verboseInstructions).symm, o.allowTrailingData,
      (h .allowTrailingData).symm, ⟨o.maxDepth, o.maxDepth_le⟩,
      checkDepth_eq_ok_iff.mpr (h .maxDepth).symm, o.stringErrors, (h .stringErrors).symm, rfl⟩

end Draft

theorem value_draft (o : Options) (name : Name) : o.draft.value name = o.value name := by
  cases name <;> rfl

/-! ### Layers -/

theorem ofMembers_eq_ok_iff {members : List (Text × Json)} {o : Options} :
    ofMembers members = .ok o ↔ (∀ member ∈ members, isName member.1 = true) ∧
      ∀ name, o.value name =
        (Json.member? name.text members).getD ((default : Options).value name) := by
  have hknown : (members.map (·.1)).filter (!isName ·) = [] ↔
      ∀ member ∈ members, isName member.1 = true := by
    simp [List.filter_eq_nil_iff]
  rw [← hknown]
  unfold ofMembers
  cases hunknown : (members.map (·.1)).filter (!isName ·) with
  | nil =>
    simp only [Draft.check_eq_ok_iff, Draft.value_overwrite, value_draft, true_and]
  | cons name names => simp

/-- Overrides are checked like members, but they change options and not the defaults. -/
theorem withOverrides_eq_check {o : Options} {overrides : List (Text × Json)}
    (hreserved : ∀ member ∈ overrides, member.1 ≠ reservedName)
    (hknown : ∀ member ∈ overrides, isName member.1 = true) :
    o.withOverrides overrides = (o.draft.overwrite (overrides.filter (!·.2.isNull))).check := by
  have hplain : ¬overrides.any (·.1 = reservedName) = true := by
    intro hany
    obtain ⟨member, hmem, hname⟩ := List.any_eq_true.mp hany
    exact hreserved member hmem (of_decide_eq_true hname)
  have hnone : (overrides.filter (!·.2.isNull)).find? (!isName ·.1) = none := by
    rw [List.find?_eq_none]
    intro member hmem
    rw [hknown member (List.mem_filter.mp hmem |>.1)]
    exact Bool.false_ne_true
  unfold withOverrides
  rw [if_neg hplain]
  cases hchanges : overrides.filter (!·.2.isNull) with
  | nil =>
    refine (Draft.check_eq_ok_iff.mpr fun name => ?_).symm
    rw [Draft.value_overwrite, value_draft]
    rfl
  | cons member members =>
    rw [hchanges] at hnone
    simp only [hnone]

/-! ### Values by their names -/

section

variable {members : List (Text × Json)} {name : Text} {v : Json}

theorem member?_cons (name : Text) (member : Text × Json) (rest : List (Text × Json)) :
    Json.member? name (member :: rest) =
      if member.1 = name then some member.2 else Json.member? name rest := by
  by_cases hname : member.1 = name <;> simp [Json.member?, hname]

theorem member?_eq_some_iff (h : (members.map (·.1)).Nodup) :
    Json.member? name members = some v ↔ (name, v) ∈ members := by
  induction members with
  | nil => simp [Json.member?]
  | cons member rest ih =>
    obtain ⟨hnew, hrest⟩ := List.nodup_cons.mp h
    rw [member?_cons, List.mem_cons]
    by_cases hname : member.1 = name
    · subst hname
      rw [if_pos rfl, Option.some.injEq]
      refine ⟨fun hv => .inl (hv ▸ rfl), fun hmem => ?_⟩
      rcases hmem with hv | hmem
      · exact (congrArg Prod.snd hv).symm
      · exact absurd (List.mem_map_of_mem hmem) hnew
    · rw [if_neg hname, ih hrest]
      refine ⟨.inr, fun hmem => hmem.resolve_left ?_⟩
      rintro rfl
      exact hname rfl

theorem member?_of_notMem (h : name ∉ members.map (·.1)) : Json.member? name members = none := by
  rw [Json.member?, Option.map_eq_none_iff, List.find?_eq_none]
  intro member hmem hname
  exact h (of_decide_eq_true hname ▸ List.mem_map_of_mem hmem)

end

theorem member?_all (f : Name → Json) (name : Name) :
    Json.member? name.text (Name.all.map fun n => (n.text, f n)) = some (f name) := by
  cases name <;> rfl

theorem toMembers_eq_map (o : Options) :
    o.toMembers = Name.all.map fun name => (name.text, o.value name) := rfl

/-- Values by their names, each name at most once. -/
structure Assignment where
  members : List (Text × Json)
  distinct : (members.map (·.1)).Nodup

/-- Values of options. -/
structure Overrides extends Assignment where
  known : ∀ member ∈ members, isName member.1 = true

/-- What overrides give an option; null is nothing. -/
def Assignment.given? (a : Assignment) (name : Name) : Option Json :=
  (Json.member? name.text a.members).filter (!·.isNull)

theorem Assignment.member?_filter (a : Assignment) (name : Name) :
    Json.member? name.text (a.members.filter (!·.2.isNull)) = a.given? name := by
  have hdistinct : ((a.members.filter (!·.2.isNull)).map (·.1)).Nodup :=
    a.distinct.sublist (List.filter_sublist.map _)
  ext v
  rw [member?_eq_some_iff hdistinct, List.mem_filter, given?, Option.filter_eq_some_iff,
    member?_eq_some_iff a.distinct]

/-! ### Overrides -/

namespace Overrides

variable (s : Overrides) (o : Options)

/-- What comes of options and overrides, still unchecked. -/
def applied : Draft := o.draft.overwrite (s.members.filter (!·.2.isNull))

theorem withOverrides_eq_check : o.withOverrides s.members = (s.applied o).check := by
  refine Options.withOverrides_eq_check (fun member hmem hreserved => ?_) s.known
  obtain ⟨name, hname⟩ := isName_iff.mp (s.known member hmem)
  exact text_ne_reservedName name (hname.symm.trans hreserved)

theorem value_applied (name : Name) :
    (s.applied o).value name = (s.given? name).getD (o.value name) := by
  rw [applied, Draft.value_overwrite, s.member?_filter, value_draft]

theorem eq_ok_iff {s : Overrides} {o o' : Options} : o.withOverrides s.members = .ok o' ↔
    ∀ name, o'.value name = (s.given? name).getD (o.value name) := by
  simp only [withOverrides_eq_check, Draft.check_eq_ok_iff, value_applied]

end Overrides

end Options

end LuaBytecode
