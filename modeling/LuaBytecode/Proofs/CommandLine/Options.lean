import LuaBytecode.CommandLine.Run
import LuaBytecode.Proofs.Session

/-!
# The options of a run

The defaults, the config file and the flags are three layers: an option has its value from the
highest that says anything of it. A run resolves to these options just if the config file can be
read and is valid by itself, and the values that come out on top are. How deep the config file may
nest is a limit of the host.
-/

namespace LuaBytecode.CommandLine

open Session

namespace Settings

/-- What the flags give an option, if anything. -/
def given? (s : Settings) : Options.Name → Option Json
  | .verboseInstructions => if s.verboseInstructions then some (.bool true) else none
  | .maxDepth => s.maxDepth.map (Given.toJson fun n : Nat => .int n)
  | .allowTrailingData => if s.allowTrailingData then some (.bool true) else none
  | .stringErrors => s.stringErrors.map (Given.toJson .string)

/-- The members of the config file, which is readable and valid; none without a file. -/
inductive Configured (s : Settings) (nesting : Nat) (files : FileTree) :
    List (Text × Json) → Prop
  | absent (hconfig : s.config = none) : Configured s nesting files []
  | present {path : Path} {content : Bytes} {text : Text} {members : List (Text × Json)}
    (hconfig : s.config = some path) (hread : files.read path = .ok content)
    (htext : textOf content = .ok text)
    (hparse : Json.parse nesting text = .ok (.object members))
    (hnames : ∀ member ∈ members, Options.isName member.1 = true)
    (hvalues : ∃ base : Options, ∀ name, base.value name =
      (Json.member? name.text members).getD ((default : Options).value name)) :
    Configured s nesting files members

/-- The options have the values of the flags, where there are none those of the config file, and
otherwise the defaults. -/
def Resolves (s : Settings) (nesting : Nat) (files : FileTree) (o : Options) : Prop :=
  ∃ members, s.Configured nesting files members ∧ ∀ name, o.value name = (s.given? name).getD
    ((Json.member? name.text members).getD ((default : Options).value name))

theorem Configured.exists_base {s : Settings} {nesting : Nat} {files : FileTree}
    {members : List (Text × Json)} (h : s.Configured nesting files members) :
    ∃ base : Options, ∀ name, base.value name =
      (Json.member? name.text members).getD ((default : Options).value name) := by
  cases h with
  | absent hconfig => exact ⟨default, fun _ => rfl⟩
  | present hconfig hread htext hparse hnames hvalues => exact hvalues

theorem overrides_eq (s : Settings) :
    s.overrides = Options.Name.all.map fun name => (name.text, (s.given? name).getD .null) := by
  have hswitch : ∀ b : Bool, (if b then some (Json.bool true) else none).getD .null =
      if b then .bool true else .null := by
    intro b
    cases b <;> rfl
  simp only [overrides, Options.Name.all, List.map_cons, List.map_nil, given?, hswitch]
  cases s.maxDepth <;> cases s.stringErrors <;> rfl

theorem not_isNull_given? {s : Settings} {name : Options.Name} {v : Json}
    (h : s.given? name = some v) : v.isNull = false := by
  have hgiven : ∀ {α : Type} (encode : α → Json) (g : Given α), (∀ a, (encode a).isNull = false) →
      (g.toJson encode).isNull = false := by
    intro α encode g hencode
    cases g with
    | value a => exact hencode a
    | nothing => rfl
  have hswitch : ∀ b : Bool, (if b then some (Json.bool true) else none) = some v →
      v.isNull = false := by
    intro b hb
    cases b with
    | false => cases hb
    | true =>
      cases hb
      rfl
  cases name with
  | verboseInstructions => exact hswitch _ h
  | maxDepth =>
    obtain ⟨g, _, rfl⟩ := Option.map_eq_some_iff.mp h
    exact hgiven _ g fun _ => rfl
  | allowTrailingData => exact hswitch _ h
  | stringErrors =>
    obtain ⟨g, _, rfl⟩ := Option.map_eq_some_iff.mp h
    exact hgiven _ g fun _ => rfl

/-- The flags as overrides; those that are not set are null. -/
def toOverrides (s : Settings) : Options.Overrides where
  members := s.overrides
  known := by
    rw [overrides_eq]
    intro member hmem
    obtain ⟨name, _, rfl⟩ := List.mem_map.mp hmem
    exact Options.isName_text name
  distinct := by
    rw [overrides_eq, List.map_map]
    exact (by decide : (Options.Name.all.map Options.Name.text).Nodup)

theorem given?_toOverrides (s : Settings) (name : Options.Name) :
    s.toOverrides.given? name = s.given? name := by
  have hmember : Json.member? name.text s.toOverrides.members =
      some ((s.given? name).getD .null) := by
    change Json.member? name.text s.overrides = _
    rw [overrides_eq, Options.member?_all]
  rw [Options.Assignment.given?, hmember]
  cases hgiven : s.given? name with
  | none => rfl
  | some v =>
    have hnull := not_isNull_given? hgiven
    rw [Option.getD_some, Option.filter_some, hnull]
    rfl

theorem withOverrides_eq_check (s : Settings) (base : Options) :
    base.withOverrides s.overrides = (s.toOverrides.applied base).check :=
  s.toOverrides.withOverrides_eq_check base

theorem value_applied (s : Settings) (base : Options) (name : Options.Name) :
    (s.toOverrides.applied base).value name = (s.given? name).getD (base.value name) := by
  rw [Options.Overrides.value_applied, given?_toOverrides]

theorem withOverrides_eq_ok_iff {s : Settings} {base o : Options} :
    base.withOverrides s.overrides = .ok o ↔
      ∀ name, o.value name = (s.given? name).getD (base.value name) := by
  simp only [withOverrides_eq_check, Options.Draft.check_eq_ok_iff, value_applied]

end Settings

/-! ### Resolving the options -/

variable {st : Log.State}

def baseOptions (nesting : Nat) (s : Settings) : Session Options :=
  match s.config with
  | some path => loadOptionsWithin nesting path
  | none => pure default

theorem gives_baseOptions (h : st.traces = []) (nesting : Nat) (s : Settings) :
    ∃ r, (baseOptions nesting s).Gives st r ∧ ∀ base, r = .ok base ↔
      ∃ members, s.Configured nesting st.files members ∧ ∀ name, base.value name =
        (Json.member? name.text members).getD ((default : Options).value name) := by
  cases hconfig : s.config with
  | none =>
    have hbase : baseOptions nesting s = pure default := by
      rw [baseOptions, hconfig]
    rw [hbase]
    refine ⟨_, gives_pure h default, fun base => ⟨?_, ?_⟩⟩
    · rintro ⟨⟩
      exact ⟨[], .absent hconfig, fun _ => rfl⟩
    · rintro ⟨members, hmembers, hvalues⟩
      cases hmembers with
      | absent => rw [Options.eq_of_value hvalues]
      | present hpath => cases hconfig.symm.trans hpath
  | some path =>
    have hbase : baseOptions nesting s = loadOptionsWithin nesting path := by
      rw [baseOptions, hconfig]
    obtain ⟨r, hgives, hr⟩ := gives_loadOptionsWithin h nesting path
    rw [hbase]
    refine ⟨r, hgives, fun base => ?_⟩
    rw [hr]
    constructor
    · rintro ⟨content, hread, hoptions⟩
      obtain ⟨text, members, htext, hparse, hmembers⟩ := optionsOf_eq_ok_iff.mp hoptions
      obtain ⟨hnames, hvalues⟩ := Options.ofMembers_eq_ok_iff.mp hmembers
      exact ⟨members, .present hconfig hread htext hparse hnames ⟨base, hvalues⟩, hvalues⟩
    · rintro ⟨members, hmembers, hvalues⟩
      cases hmembers with
      | absent hnone => cases hconfig.symm.trans hnone
      | present hpath hread htext hparse hnames =>
        cases hconfig.symm.trans hpath
        exact ⟨_, hread, optionsOf_eq_ok_iff.mpr ⟨_, _, htext, hparse,
          Options.ofMembers_eq_ok_iff.mpr ⟨hnames, hvalues⟩⟩⟩

theorem resolveOptions_eq (nesting : Nat) (s : Settings) : resolveOptions nesting s =
    baseOptions nesting s >>= fun base =>
      liftResult ((base.withOverrides s.overrides).mapError Failure.option) := by
  unfold resolveOptions baseOptions
  cases s.config <;> rfl

theorem gives_resolveOptions (h : st.traces = []) (nesting : Nat) (s : Settings) :
    ∃ r, (resolveOptions nesting s).Gives st r ∧
      ∀ o, r = .ok o ↔ s.Resolves nesting st.files o := by
  obtain ⟨r, hgives, hr⟩ := gives_baseOptions h nesting s
  rw [resolveOptions_eq]
  cases r with
  | error e =>
    -- A file that is not valid by itself is refused, whatever the flags would put in its place.
    refine ⟨_, hgives.bind_error, fun o => ⟨nofun, ?_⟩⟩
    rintro ⟨members, hmembers, _⟩
    obtain ⟨base, hbase⟩ := hmembers.exists_base
    cases (hr base).mpr ⟨members, hmembers, hbase⟩
  | ok base =>
    refine ⟨_, hgives.bind fun st' hst' => gives_liftResult hst'.trace _, fun o => ?_⟩
    rw [Action.mapError_eq_ok_iff, Settings.withOverrides_eq_ok_iff]
    constructor
    · intro ho
      obtain ⟨members, hmembers, hbase⟩ := (hr base).mp rfl
      refine ⟨members, hmembers, fun name => ?_⟩
      rw [ho, hbase]
    · rintro ⟨members, hmembers, ho⟩ name
      obtain ⟨base', hbase'⟩ := hmembers.exists_base
      cases (hr base').mpr ⟨members, hmembers, hbase'⟩
      rw [ho, hbase']

end LuaBytecode.CommandLine
