import LuaBytecode.CommandLine.Invocation
import LuaBytecode.Proofs.Action

/-!
# A trace file put first among the arguments

No argument but the flag of the trace file looks at the trace file that was given before it. So a
command line that does not have the flag asks for the same with one put first, and for a trace file
besides.
-/

namespace LuaBytecode.CommandLine

def Settings.withTrace (s : Settings) (trace : Option Path) : Settings := { s with trace }

def Request.withTrace (trace : Option Path) : Request → Request
  | .help => .help
  | .run input s => .run input (s.withTrace trace)

/-- The flag of the trace file with its value attached. -/
def traceArgument (t : Text) : Text := "--trace=" ++ t

/-- The two ways to name a trace file. As an argument of its own the name must not look like a
flag. -/
inductive TraceFlag (t : Text) : List Text → Prop
  | attached : TraceFlag t [traceArgument t]
  | next (hplain : Argument.ofText t = .ok (.plain t)) : TraceFlag t ["--trace", t]

/-- None of the arguments is the flag of the trace file, however it is spelt. -/
def Untraced (arguments : List Argument) : Prop :=
  ∀ short value, .flag .trace short value ∉ arguments

theorem Untraced.tail {a : Argument} {rest : List Argument} (h : Untraced (a :: rest)) :
    Untraced rest :=
  fun short value hmem => h short value (List.mem_cons_of_mem _ hmem)

theorem Untraced.head_ne {f : Flag} {short : Bool} {value : Option Text} {rest : List Argument}
    (h : Untraced (.flag f short value :: rest)) : f ≠ .trace := by
  rintro rfl
  exact h short value List.mem_cons_self

/-! ### Settings -/

namespace Settings

theorem switchOn_withTrace (s : Settings) (trace : Option Path) (f : Flag) :
    (s.withTrace trace).switchOn f = (s.switchOn f).withTrace trace := by
  cases f <;> rfl

theorem setNothing_withTrace (s : Settings) (trace : Option Path) {f : Flag} (h : f ≠ .trace) :
    (s.withTrace trace).setNothing f = (s.setNothing f).withTrace trace := by
  cases f with
  | trace => exact absurd rfl h
  | _ => rfl

theorem setValue_withTrace (s : Settings) (trace : Option Path) {f : Flag} (h : f ≠ .trace)
    (t : Text) :
    (s.withTrace trace).setValue f t = (s.setValue f t).map (·.withTrace trace) := by
  cases f with
  | trace => exact absurd rfl h
  | maxDepth =>
    simp only [setValue]
    cases t.toInt? with
    | none => rfl
    | some depth =>
      simp only
      split <;> rfl
  | indent =>
    simp only [setValue]
    cases t.toInt? <;> rfl
  | _ => rfl

theorem give_withTrace (s : Settings) (trace : Option Path) {f : Flag} (h : f ≠ .trace)
    (t : Text) : (s.withTrace trace).give f t = (s.give f t).map (·.withTrace trace) := by
  unfold give
  split
  · rw [setNothing_withTrace s trace h]
    rfl
  · exact setValue_withTrace s trace h t

theorem withTrace_of_trace {s : Settings} {trace : Option Path} (h : s.trace = trace) :
    s.withTrace trace = s := by
  subst h
  rfl

end Settings

/-! ### Arguments that take effect -/

theorem bind_give_withTrace (s : Settings) (trace : Option Path) {f : Flag} (h : f ≠ .trace)
    (value : Text) {next : Settings → Except UsageError Request}
    (hnext : ∀ s', next (s'.withTrace trace) = (next s').map (Request.withTrace trace)) :
    (do next (← (s.withTrace trace).give f value)) =
      (do next (← s.give f value)).map (Request.withTrace trace) := by
  rw [s.give_withTrace trace h]
  cases s.give f value with
  | error e => rfl
  | ok s' => exact hnext s'

theorem interpret_switch {input : Option Text} (s : Settings) {extras : List Text} {f : Flag}
    {short : Bool} {rest : List Argument} (hvalue : ¬f.takesValue = true) (hhelp : ¬f = .help) :
    interpret input s extras (.flag f short none :: rest) =
      interpret input (s.switchOn f) extras rest := by
  conv => lhs; unfold interpret
  simp only [if_neg hvalue, if_neg hhelp]

theorem interpret_withTrace (trace : Option Path) {arguments : List Argument}
    (h : Untraced arguments) (input : Option Text) (s : Settings) (extras : List Text) :
    interpret input (s.withTrace trace) extras arguments =
      (interpret input s extras arguments).map (Request.withTrace trace) := by
  fun_induction interpret input s extras arguments with
  | case4 s extras text later ih => exact ih h.tail.tail
  | case5 s extras text rest hrest ih =>
    rw [interpret]
    · exact ih h.tail
    · exact hrest
  | case6 s extras text input rest ih => exact ih h.tail
  | case7 s extras text later ih => exact ih h.tail.tail
  | case8 input s extras rest hrest ih =>
    rw [interpret]
    · exact ih h.tail
    · exact hrest
  | case9 input s extras text rest ih =>
    rw [interpret]
    exact ih h.tail
  | case10 input s extras f short hvalue value rest ih =>
    rw [interpret, if_pos hvalue]
    exact bind_give_withTrace s trace h.head_ne value fun s' => ih s' h.tail
  | case11 input s extras f short hvalue value later ih =>
    rw [interpret, if_pos hvalue]
    exact bind_give_withTrace s trace h.head_ne value fun s' => ih s' h.tail.tail
  | case14 input s extras f short rest hvalue hhelp ih =>
    rw [interpret_switch (s.withTrace trace) hvalue hhelp, s.switchOn_withTrace]
    exact ih h.tail
  -- The others end here.
  | case1 | case2 | case3 | case12 | case13 | case15 | case16 =>
    unfold interpret
    simp_all [Except.map, Request.withTrace]

/-! ### Arguments as they are spelt -/

theorem ofSpelling?_of_equals {t : Text} (h : .ofChar '=' ∈ t.codes) :
    Flag.ofSpelling? t = none := by
  have hspellings : ∀ entry ∈ Flag.spellings,
      .ofChar '=' ∉ (Text.ofString entry.1).codes := by decide
  have hnone : ∀ entry ∈ Flag.spellings, ¬Text.ofString entry.1 = t := by
    rintro entry hentry rfl
    exact hspellings entry hentry h
  rw [Flag.ofSpelling?, List.find?_eq_none.mpr (by simpa using hnone)]
  rfl

theorem ofText_traceArgument (t : Text) :
    Argument.ofText (traceArgument t) = .ok (.flag .trace false (some t)) := by
  have hspelling : Flag.ofSpelling? (traceArgument t) = none :=
    ofSpelling?_of_equals (List.mem_append_left _ (by decide))
  rw [Argument.ofText, hspelling]
  rfl

theorem ofText_of_head {t : Text} (h : t.codes.head? ≠ some Argument.hyphen) :
    Argument.ofText t = .ok (.plain t) := by
  rw [Argument.ofText, if_pos (.inl h)]

theorem classify_cons {t : Text} (ht : t ≠ "--") {kind : Argument}
    (hkind : Argument.ofText t = .ok kind) {rest : List Text} {kinds : List Argument}
    (hkinds : Argument.classify rest = .ok kinds) :
    Argument.classify (t :: rest) = .ok (kind :: kinds) := by
  rw [Argument.classify, if_neg ht, hkind, hkinds]
  rfl

theorem parseArguments_of_classify {arguments : List Text} {kinds : List Argument}
    (hkinds : Argument.classify arguments = .ok kinds) :
    parseArguments arguments = interpret none {} [] kinds := by
  rw [parseArguments, hkinds]
  rfl

theorem parseArguments_front {front : List Text} {t : Text} (hfront : TraceFlag t front)
    (ht : t ≠ "--") {arguments : List Text} {kinds : List Argument}
    (hkinds : Argument.classify arguments = .ok kinds) :
    parseArguments (front ++ arguments) =
      interpret none (Settings.withTrace {} (some (.ofText t))) [] kinds := by
  cases hfront with
  | attached =>
    have hdifferent : traceArgument t ≠ "--" := by
      intro h
      cases congrArg (fun t : Text => t.codes.drop 2) h
    rw [List.singleton_append,
      parseArguments_of_classify (classify_cons hdifferent (ofText_traceArgument t) hkinds),
      interpret, if_pos (by rfl), Settings.give, if_neg ht]
    rfl
  | next hplain =>
    have hname : Argument.ofText "--trace" = .ok (.flag .trace false none) := by rfl
    rw [List.cons_append, List.singleton_append, parseArguments_of_classify
      (classify_cons (by decide) hname (classify_cons ht hplain hkinds)),
      interpret, if_pos (by rfl), Settings.give, if_neg ht]
    rfl

/-- A command line that names no trace file asks for the same with one named in front, and for
that. -/
theorem parseArguments_withTrace {front : List Text} {t : Text} (hfront : TraceFlag t front)
    (ht : t ≠ "--") {arguments : List Text} {kinds : List Argument}
    (hkinds : Argument.classify arguments = .ok kinds) (huntraced : Untraced kinds) :
    parseArguments (front ++ arguments) =
      (parseArguments arguments).map (Request.withTrace (some (.ofText t))) := by
  rw [parseArguments_front hfront ht hkinds, parseArguments_of_classify hkinds,
    interpret_withTrace _ huntraced]

/-- A command line without the flag names no trace file. -/
theorem trace_of_untraced {arguments : List Text} {kinds : List Argument} {input : Path}
    {s : Settings} (hkinds : Argument.classify arguments = .ok kinds) (huntraced : Untraced kinds)
    (hparse : parseArguments arguments = .ok (.run input s)) : s.trace = none := by
  have hsame := interpret_withTrace none huntraced none {} []
  rw [Settings.withTrace_of_trace rfl, ← parseArguments_of_classify hkinds, hparse] at hsame
  injection hsame with hrequest
  injection hrequest with _ hs
  rw [hs]
  rfl

end LuaBytecode.CommandLine
