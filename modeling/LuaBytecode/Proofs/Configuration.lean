import LuaBytecode.Proofs.Files
import LuaBytecode.Proofs.Session

/-!
# What a config file is refused for

A config file gives the options of the object in it, or it is refused with a fault that names the
file or an option. Loading breaks off with a fault of another kind for a few contents only: those
that are not UTF-8, an integer that is too long, values that nest too deep, and, once everything
else about an object is in order, a policy under a name that cannot even be looked up.
-/

namespace LuaBytecode

/-- Whether a fault says that the options are wrong, and not that they could not be looked at. -/
def OptionFault.isConfiguration : OptionFault → Bool
  | .unknownNames _ | .notBoolean _ _ | .badDepth _ | .policyNotText _ | .unknownPolicy _ => true
  | .policy _ | .unknownOverride _ | .reservedOverride => false

def Failure.isConfiguration : Failure → Bool
  | .option f => f.isConfiguration
  | .configUnreadable _ _ | .configMalformed _ _ | .configNotObject _ => true
  | .scan _ | .file _ | .indent _ | .text _ | .integerTooLong _ | .nestedTooDeep _
  | .unencodable _ | .compilerMissing | .compilerBroken _ | .sourceRefused _ => false

/-! ### Options -/

namespace Options

namespace Draft

variable {v : Json} {f : OptionFault} {g : PolicyFault}

theorem isConfiguration_of_checkBoolean {name : Name} (h : checkBoolean name v = .error f) :
    f.isConfiguration = true := by
  cases v <;> cases h <;> rfl

theorem isConfiguration_of_checkDepth (h : checkDepth v = .error f) :
    f.isConfiguration = true := by
  unfold checkDepth at h
  split at h
  · split at h
    · cases h
    · cases h
      rfl
  · cases h
    rfl

theorem checkPolicy_eq_policy_iff : checkPolicy v = .error (.policy g) ↔
    ∃ name, v = .string name ∧ Policy.nameFault? name = some g := by
  cases v with
  | string name =>
    simp only [checkPolicy, Json.string.injEq, exists_eq_left']
    cases hfault : Policy.nameFault? name with
    | some fault => simp
    | none => cases Policy.ofName? name <;> simp
  | _ => simp [checkPolicy]

theorem isConfiguration_of_checkPolicy (h : checkPolicy v = .error f) :
    f.isConfiguration = true ∨ ∃ g, f = .policy g := by
  unfold checkPolicy at h
  split at h
  · split at h
    · cases h
      exact .inr ⟨_, rfl⟩
    · cases h
    · cases h
      exact .inl rfl
  · cases h
    exact .inl rfl

theorem isConfiguration_of_check {d : Draft} (h : d.check = .error f) :
    f.isConfiguration = true ∨ ∃ g, f = .policy g := by
  simp only [check, Action.bind_eq_error_iff] at h
  rcases h with h | ⟨_, _, h | ⟨_, _, h | ⟨_, _, h | ⟨_, _, h⟩⟩⟩⟩
  · exact .inl (isConfiguration_of_checkBoolean h)
  · exact .inl (isConfiguration_of_checkBoolean h)
  · exact .inl (isConfiguration_of_checkDepth h)
  · exact isConfiguration_of_checkPolicy h
  · cases h

theorem check_eq_policy_iff {d : Draft} : d.check = .error (.policy g) ↔
    (∃ o : Options, ∀ name, name ≠ .stringErrors → o.value name = d.value name) ∧
      ∃ name, d.value .stringErrors = .string name ∧ Policy.nameFault? name = some g := by
  have hboolean : ∀ {name v}, checkBoolean name v ≠ .error (.policy g) := fun h =>
    Bool.false_ne_true (isConfiguration_of_checkBoolean h)
  have hdepth : ∀ {v}, checkDepth v ≠ .error (.policy g) := fun h =>
    Bool.false_ne_true (isConfiguration_of_checkDepth h)
  simp only [check, Action.bind_eq_error_iff, hboolean, hdepth, false_or, checkBoolean_eq_ok_iff,
    checkPolicy_eq_policy_iff]
  constructor
  · rintro ⟨verbose, hverbose, trailing, htrailing, ⟨depth, hle⟩, hd, h | ⟨_, _, h⟩⟩
    · rw [checkDepth_eq_ok_iff] at hd
      refine ⟨⟨⟨verbose, depth, trailing, .strict, hle⟩, fun name hname => ?_⟩, h⟩
      cases name with
      | verboseInstructions => exact hverbose.symm
      | maxDepth => exact hd.symm
      | allowTrailingData => exact htrailing.symm
      | stringErrors => exact absurd rfl hname
    · cases h
  · rintro ⟨⟨o, ho⟩, h⟩
    exact ⟨o.verboseInstructions, (ho .verboseInstructions (by decide)).symm, o.allowTrailingData,
      (ho .allowTrailingData (by decide)).symm, ⟨o.maxDepth, o.maxDepth_le⟩,
      checkDepth_eq_ok_iff.mpr (ho .maxDepth (by decide)).symm, .inl h⟩

/-- Values come upon those of options: if only the name of the policy cannot be looked up, it is one
that has come. -/
theorem layered_eq_policy_iff {d : Draft} {o : Options} {given : Name → Option Json}
    (hd : ∀ name, d.value name = (given name).getD (o.value name)) :
    d.check = .error (.policy g) ↔
      (∃ o' : Options, ∀ name, name ≠ .stringErrors →
        o'.value name = (given name).getD (o.value name)) ∧
      ∃ t, given .stringErrors = some (.string t) ∧ Policy.nameFault? t = some g := by
  rw [check_eq_policy_iff]
  simp only [hd]
  refine and_congr_right fun _ => exists_congr fun t => and_congr_left fun hfault => ?_
  cases hgiven : given .stringErrors with
  | some v => simp
  | none =>
    simp only [Option.getD_none, reduceCtorEq, iff_false]
    rintro ⟨⟩
    cases (Policy.nameFault?_name _).symm.trans hfault

end Draft

/-- Every option is named by a member that is known and has a valid value or is not named at all,
except that the name of the policy holds a null character or a surrogate. -/
structure UnnameablePolicy (members : List (Text × Json)) (g : PolicyFault) : Prop where
  known : ∀ member ∈ members, isName member.1 = true
  others : ∃ o : Options, ∀ name, name ≠ .stringErrors → o.value name =
    (Json.member? name.text members).getD ((default : Options).value name)
  unnameable : ∃ name, Json.member? Name.stringErrors.text members = some (.string name) ∧
    Policy.nameFault? name = some g

theorem ofMembers_of_known {members : List (Text × Json)}
    (h : ∀ member ∈ members, isName member.1 = true) :
    ofMembers members = ((default : Options).draft.overwrite members).check := by
  have hnone : (members.map (·.1)).filter (!isName ·) = [] := by
    simpa [List.filter_eq_nil_iff] using h
  rw [ofMembers, hnone]

theorem ofMembers_eq_policy_iff {members : List (Text × Json)} {g : PolicyFault} :
    ofMembers members = .error (.policy g) ↔ UnnameablePolicy members g := by
  have hvalue : ∀ name, ((default : Options).draft.overwrite members).value name =
      (Json.member? name.text members).getD ((default : Options).value name) := by
    intro name
    rw [Draft.value_overwrite, value_draft]
  by_cases hknown : ∀ member ∈ members, isName member.1 = true
  · rw [ofMembers_of_known hknown, Draft.layered_eq_policy_iff hvalue]
    exact ⟨fun h => ⟨hknown, h.1, h.2⟩, fun h => ⟨h.others, h.unnameable⟩⟩
  · refine ⟨fun h => ?_, fun h => absurd h.known hknown⟩
    unfold ofMembers at h
    split at h
    · rename_i hnone
      exact absurd (by simpa [List.filter_eq_nil_iff] using hnone) hknown
    · cases h

theorem isConfiguration_of_ofMembers {members : List (Text × Json)} {f : OptionFault}
    (h : ofMembers members = .error f) : f.isConfiguration = true ∨ ∃ g, f = .policy g := by
  unfold ofMembers at h
  split at h
  · exact Draft.isConfiguration_of_check h
  · cases h
    exact .inl rfl

theorem ofMembers_error_iff {members : List (Text × Json)} {f : OptionFault} :
    (ofMembers members = .error f ∧ f.isConfiguration = false) ↔
      ∃ g, f = .policy g ∧ UnnameablePolicy members g := by
  constructor
  · rintro ⟨h, hother⟩
    rcases isConfiguration_of_ofMembers h with hconfiguration | ⟨g, rfl⟩
    · cases hother.symm.trans hconfiguration
    · exact ⟨g, rfl, ofMembers_eq_policy_iff.mp h⟩
  · rintro ⟨g, rfl, h⟩
    exact ⟨ofMembers_eq_policy_iff.mpr h, rfl⟩

end Options

/-! ### Config files -/

namespace FileTree

/-- The options that the config file at a path gives. -/
def optionsAt (t : FileTree) (nesting : Nat) (p : Path) : Except Failure Options :=
  match t.read p with
  | .error (.system e) => .error (.configUnreadable p e)
  | .error f => .error (.file f)
  | .ok content => Session.optionsOf nesting p content

end FileTree

namespace Session

variable {st : Log.State} {nesting : Nat} {p : Path}

def loadedRecord (p : Path) (o : Options) : Log.Record :=
  ⟨.options, .debug, "Loaded decode options from " ++ p.toText ++ ": " ++ o.display⟩

theorem run_loadOptionsWithin : (loadOptionsWithin nesting p).run st =
    match st.files.optionsAt nesting p with
    | .error f => (.error f, st)
    | .ok o => (.ok o, st.log (loadedRecord p o)) := by
  unfold loadOptionsWithin FileTree.optionsAt
  rw [Action.run_get_bind]
  cases st.files.read p with
  | error f => cases f <;> rfl
  | ok content =>
    simp only
    cases optionsOf nesting p content with
    | error f => exact Action.run_bind_of_error (run_liftResult _)
    | ok o => exact Action.run_bind_of_ok (run_liftResult _)

theorem run_loadOptionsWithin_fst :
    ((loadOptionsWithin nesting p).run st).1 = st.files.optionsAt nesting p := by
  rw [run_loadOptionsWithin]
  cases st.files.optionsAt nesting p <;> rfl

end Session

/-- What breaks off the loading of a config file, with the fault that comes of it. -/
inductive ConfigBreak (t : FileTree) (nesting : Nat) (p : Path) : Failure → Prop
  | path {g : PathFault} (hencode : p.encode = .error g) : ConfigBreak t nesting p (.file (.path g))
  | text {content : Bytes} {m : Utf8.Malformed} (hread : t.read p = .ok content)
    (htext : Utf8.decode content = .error m) : ConfigBreak t nesting p (.text m)
  | integer {content : Bytes} {text : Text} {digits : Nat} (hread : t.read p = .ok content)
    (htext : Session.textOf content = .ok text)
    (hparse : Json.parse nesting text = .error (.integerTooLong digits)) :
    ConfigBreak t nesting p (.integerTooLong digits)
  | nesting {content : Bytes} {text : Text} {container : Json.Container}
    (hread : t.read p = .ok content) (htext : Session.textOf content = .ok text)
    (hparse : Json.parse nesting text = .error (.nestedTooDeep container)) :
    ConfigBreak t nesting p (.nestedTooDeep container)
  | policy {content : Bytes} {text : Text} {members : List (Text × Json)} {g : PolicyFault}
    (hread : t.read p = .ok content) (htext : Session.textOf content = .ok text)
    (hparse : Json.parse nesting text = .ok (.object members))
    (hpolicy : Options.UnnameablePolicy members g) : ConfigBreak t nesting p (.option (.policy g))

section

variable {t : FileTree} {nesting : Nat} {p : Path} {f : Failure}

theorem ConfigBreak.optionsAt (h : ConfigBreak t nesting p f) :
    t.optionsAt nesting p = .error f ∧ f.isConfiguration = false := by
  unfold FileTree.optionsAt
  cases h with
  | path hencode =>
    rw [FileTree.read_eq_path_iff.mpr hencode]
    exact ⟨rfl, rfl⟩
  | text hread htext =>
    simp only [hread, Session.optionsOf, Session.textOf_eq_error_iff.mpr ⟨_, htext, rfl⟩]
    exact ⟨rfl, rfl⟩
  | integer hread htext hparse | nesting hread htext hparse =>
    simp only [hread, Session.optionsOf, htext, bind, Except.bind, hparse]
    exact ⟨trivial, rfl⟩
  | policy hread htext hparse hpolicy =>
    simp only [hread, Session.optionsOf, htext, bind, Except.bind, hparse,
      Options.ofMembers_eq_policy_iff.mpr hpolicy]
    exact ⟨rfl, rfl⟩

theorem configBreak_of_optionsAt (h : t.optionsAt nesting p = .error f)
    (hother : f.isConfiguration = false) : ConfigBreak t nesting p f := by
  unfold FileTree.optionsAt at h
  cases hread : t.read p with
  | error fault =>
    rw [hread] at h
    cases fault with
    | system e =>
      cases h
      cases hother
    | path g =>
      cases h
      exact .path (FileTree.read_eq_path_iff.mp hread)
  | ok content =>
    simp only [hread, Session.optionsOf, Action.bind_eq_error_iff] at h
    rcases h with htext | ⟨text, htext, h⟩
    · obtain ⟨m, hdecode, rfl⟩ := Session.textOf_eq_error_iff.mp htext
      exact .text hread hdecode
    · cases hparse : Json.parse nesting text with
      | error e =>
        rw [hparse] at h
        cases e with
        | malformed problem position line column =>
          cases h
          cases hother
        | integerTooLong digits =>
          cases h
          exact .integer hread htext hparse
        | nestedTooDeep container =>
          cases h
          exact .nesting hread htext hparse
      | ok v =>
        rw [hparse] at h
        cases v with
        | object members =>
          obtain ⟨fault, hmembers, rfl⟩ := Action.mapError_eq_error_iff.mp h
          obtain ⟨g, rfl, hpolicy⟩ := Options.ofMembers_error_iff.mp ⟨hmembers, hother⟩
          exact .policy hread htext hparse hpolicy
        | _ =>
          cases h
          cases hother

end

namespace Session

/-- Loading gives the options of the object in the file, or a configuration fault, or it breaks off
for one of a few reasons. The members of an object give options or a configuration fault unless the
name of the policy cannot be looked up. -/
theorem loadOptionsWithin_closed (nesting : Nat) (p : Path) (st : Log.State) :
    (∀ o, ((loadOptionsWithin nesting p).run st).1 = .ok o ↔
      ∃ content text members, st.files.read p = .ok content ∧ textOf content = .ok text ∧
        Json.parse nesting text = .ok (.object members) ∧ Options.ofMembers members = .ok o) ∧
    (∀ f, (((loadOptionsWithin nesting p).run st).1 = .error f ∧ f.isConfiguration = false) ↔
      ConfigBreak st.files nesting p f) ∧
    ∀ members f, (Options.ofMembers members = .error f ∧ f.isConfiguration = false) ↔
      ∃ g, f = .policy g ∧ Options.UnnameablePolicy members g := by
  rw [run_loadOptionsWithin_fst]
  refine ⟨fun o => ?_, fun f => ⟨fun h => configBreak_of_optionsAt h.1 h.2, ConfigBreak.optionsAt⟩,
    fun members f => Options.ofMembers_error_iff⟩
  unfold FileTree.optionsAt
  cases hread : st.files.read p with
  | error f => cases f <;> exact ⟨nofun, nofun⟩
  | ok content => simp only [optionsOf_eq_ok_iff, Except.ok.injEq, exists_and_left, exists_eq_left']

def strayByteState : Log.State where
  files := ⟨[([("o.json" : Text).codes.flatMap Utf8.encode], .file [0xFF])]⟩

/-- A config file of the one byte FF is refused, but not as a configuration. -/
theorem loadOptions_not_closed :
    ¬ ∃ nesting, ∀ (p : Path) (st : Log.State),
      (∃ o, ((loadOptionsWithin nesting p).run st).1 = .ok o) ∨
        ∃ f, ((loadOptionsWithin nesting p).run st).1 = .error f ∧ f.isConfiguration = true := by
  rintro ⟨nesting, hclosed⟩
  have hread : strayByteState.files.read (.ofText "o.json") = .ok [0xFF] := rfl
  have hbreak : ConfigBreak strayByteState.files nesting (.ofText "o.json")
      (.text ⟨.startByte, 0, [0xFF]⟩) := .text hread rfl
  obtain ⟨herror, hother⟩ := hbreak.optionsAt
  rcases hclosed (.ofText "o.json") strayByteState with ⟨o, ho⟩ | ⟨f, hf, hconfiguration⟩
  · rw [run_loadOptionsWithin_fst, herror] at ho
    cases ho
  · rw [run_loadOptionsWithin_fst, herror] at hf
    cases hf
    cases hother.symm.trans hconfiguration

end Session

end LuaBytecode
