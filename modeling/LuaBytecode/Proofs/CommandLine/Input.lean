import LuaBytecode.CommandLine.Run
import LuaBytecode.Proofs.Files
import LuaBytecode.Proofs.Session
import LuaBytecode.Proofs.Text.Substitutes

/-!
# The chunk that a run decodes

A run decodes the bytes of its input, or what the source text in it is compiled to. The compiler is
a parameter, so that what holds here holds of any: it may be missing or refuse the text, which is
reported, and nothing reports that it does not start or breaks down. The name of the chunk is that
of the file and need not have an encoding. The text always has one, as it was read from a file.
-/

namespace LuaBytecode

/-! ### Texts that were read -/

theorem Utf8.decode_eq_ok_iff {data : Bytes} {t : Text} :
    decode data = .ok t ↔ encode? t = some data := by
  rw [decode, Action.map_eq_ok_iff, encode?_eq_some_iff]
  constructor
  · rintro ⟨codes, hcodes, rfl⟩
    exact eq_chars_of_textOfPieces (fun _ => rfl) hcodes
  · intro hpieces
    exact ⟨t.codes, by rw [hpieces, textOfPieces_chars], rfl⟩

theorem Text.mem_or_eq_of_mem_unifyLineEnds {c : CodePoint} {s : List CodePoint}
    (h : c ∈ unifyLineEnds s) : c ∈ s ∨ c = lineFeed := by
  fun_induction unifyLineEnds s with
  | case1 => cases h
  | case2 => exact .inr (List.mem_singleton.mp h)
  | case3 more ih =>
    rcases List.mem_cons.mp h with rfl | h
    · exact .inr rfl
    · exact (ih h).imp_left fun h => List.mem_cons_of_mem _ (List.mem_cons_of_mem _ h)
  | case4 d more hd ih =>
    rcases List.mem_cons.mp h with rfl | h
    · exact .inr rfl
    · exact (ih h).imp_left (List.mem_cons_of_mem _)
  | case5 d rest hd ih =>
    rcases List.mem_cons.mp h with rfl | h
    · exact .inl List.mem_cons_self
    · exact (ih h).imp_left (List.mem_cons_of_mem d)

namespace Session

variable {st : Log.State} {text : Text} {f : Failure}

theorem hasSurrogate_of_textOf {content : Bytes} (h : textOf content = .ok text) :
    text.hasSurrogate = false := by
  unfold textOf at h
  cases hdecode : Utf8.decode content with
  | error m =>
    rw [hdecode] at h
    cases h
  | ok t =>
    rw [hdecode] at h
    cases h
    have ht := Utf8.hasSurrogate_of_encode? (Utf8.decode_eq_ok_iff.mp hdecode)
    rw [Text.hasSurrogate, List.any_eq_false] at ht ⊢
    intro c hc
    rcases Text.mem_or_eq_of_mem_unifyLineEnds hc with hmem | rfl
    · exact ht c hmem
    · decide

/-! ### Compilation -/

theorem bytesOf_eq_ok_iff {t : Text} {data : Bytes} :
    bytesOf t = .ok data ↔ Utf8.encode? t = some data := by
  unfold bytesOf
  cases Utf8.encode? t <;> simp

theorem bytesOf_eq_error_iff {t : Text} : bytesOf t = .error f ↔
    t.hasSurrogate = true ∧ f = .unencodable (Utf8.surrogatesFrom CodePoint.isSurrogate t) := by
  unfold bytesOf Utf8.encode?
  cases t.hasSurrogate <;> simp [eq_comm]

/-- What breaks off the compilation of a text that was read, with the failure that comes of it. -/
inductive CompilationBreak (compiler : Compiler) (name text : Text) : Failure → Prop
  | start {message : Text} (hstart : compiler.start = .error message) :
    CompilationBreak compiler name text (.compilerBroken message)
  | name (hstart : compiler.start = .ok ()) (hname : name.hasSurrogate = true) :
    CompilationBreak compiler name text
      (.unencodable (Utf8.surrogatesFrom CodePoint.isSurrogate name))
  | breakdown {source bytes : Bytes} {message : Text} (hstart : compiler.start = .ok ())
    (hname : Utf8.encode? name = some bytes) (hsource : Utf8.encode? text = some source)
    (hcompile : compiler.compile source bytes = .error (.breakdown message)) :
    CompilationBreak compiler name text (.compilerBroken message)

theorem compile_break_iff {compiler : Option Compiler} {name : Text} (input : Path)
    (htext : text.hasSurrogate = false) :
    (compile compiler name text = .error f ∧ f.report? input = none) ↔
      ∃ c, compiler = some c ∧ CompilationBreak c name text f := by
  cases compiler with
  | none =>
    refine ⟨?_, nofun⟩
    rintro ⟨h, hreport⟩
    cases h
    cases hreport
  | some c =>
    simp only [compile, Action.bind_eq_error_iff, Action.mapError_eq_error_iff,
      Action.mapError_eq_ok_iff, bytesOf_eq_error_iff, bytesOf_eq_ok_iff, htext, Option.some.injEq,
      exists_eq_left']
    constructor
    · rintro ⟨⟨message, hstart, rfl⟩ | ⟨_, hstart, ⟨hname, rfl⟩ | ⟨bytes, hname, ⟨⟨⟩, _⟩ |
        ⟨source, hsource, fault, hcompile, rfl⟩⟩⟩, hreport⟩
      · exact .start hstart
      · exact .name hstart hname
      · cases fault with
        | refusal complaint => cases hreport
        | breakdown message => exact .breakdown hstart hname hsource hcompile
    · intro h
      cases h with
      | start hstart => exact ⟨.inl ⟨_, hstart, rfl⟩, rfl⟩
      | name hstart hname => exact ⟨.inr ⟨(), hstart, .inl ⟨hname, rfl⟩⟩, rfl⟩
      | breakdown hstart hname hsource hcompile =>
        exact ⟨.inr ⟨(), hstart, .inr ⟨_, hname, .inr ⟨_, hsource, _, hcompile, rfl⟩⟩⟩, rfl⟩

/-! ### Steps -/

theorem run_readFile (p : Path) :
    (readFile p).run st = ((st.files.read p).mapError .file, st) :=
  run_liftResult _

theorem run_readFile_of_ok {p : Path} {content : Bytes} (h : st.files.read p = .ok content) :
    (readFile p).run st = (.ok content, st) := by
  rw [run_readFile, h]
  rfl

def readRecord (p : Path) (data : Bytes) : Log.Record :=
  ⟨.files, .info, "Read " ++ Text.ofNat data.length ++ " bytes from " ++ p.toText⟩

theorem run_readChunkFile (p : Path) : (readChunkFile p).run st =
    match st.files.read p with
    | .error f => (.error (.file f), st)
    | .ok data => (.ok data, st.log (readRecord p data)) := by
  unfold readChunkFile
  cases hread : st.files.read p with
  | error f =>
    refine Action.run_bind_of_error ?_
    rw [run_readFile, hread]
    rfl
  | ok data => exact Action.run_bind_of_ok (run_readFile_of_ok hread)

def compiledRecord (text : Text) (data : Bytes) : Log.Record :=
  ⟨.compiler, .debug, "Compiled " ++ Text.ofNat text.length ++
    " characters of Lua source into " ++ Text.ofNat data.length ++ " bytes"⟩

theorem run_compileSource (compiler : Option Compiler) (name : Option Text) (text : Text) :
    (compileSource compiler name text).run st =
      match compile compiler (labelOr defaultChunkName name) text with
      | .error f => (.error f, st)
      | .ok data => (.ok data, st.log (compiledRecord text data)) := by
  unfold compileSource
  cases compile compiler (labelOr defaultChunkName name) text with
  | error f => exact Action.run_bind_of_error (run_liftResult _)
  | ok data => exact Action.run_bind_of_ok (run_liftResult _)

end Session

/-! ### The input of a run -/

namespace CommandLine

open Session
open Log.State (Quiet)

/-- The bytes of the chunk that a run decodes, or why there are none. -/
def chunkAt (compiler : Option Compiler) (input : Path) (s : Settings) (t : FileTree) :
    Except Failure Bytes := do
  let content ← (t.read input).mapError .file
  if s.source then
    let text ← textOf content
    compile compiler (chunkName input) text
  else return content

section

variable {compiler : Option Compiler} {input : Path} {s : Settings} {st : Log.State}

theorem chunkAt_of_read (hsource : s.source = false) (t : FileTree) :
    chunkAt compiler input s t = (t.read input).mapError .file := by
  unfold chunkAt
  rw [hsource]
  cases t.read input <;> rfl

theorem chunkAt_eq_ok_iff (hsource : s.source = false) {t : FileTree} {data : Bytes} :
    chunkAt compiler input s t = .ok data ↔ t.read input = .ok data := by
  rw [chunkAt_of_read hsource, Action.mapError_eq_ok_iff]

theorem chunkAt_source_eq_ok_iff (hsource : s.source = true) {t : FileTree} {data : Bytes} :
    chunkAt compiler input s t = .ok data ↔ ∃ content text, t.read input = .ok content ∧
      textOf content = .ok text ∧ compile compiler (chunkName input) text = .ok data := by
  rw [chunkAt, hsource, Action.bind_eq_ok_iff]
  simp only [Action.mapError_eq_ok_iff, if_true, Action.bind_eq_ok_iff, exists_and_left]

/-- The compiler is given the text with its line ends unified, and the name of the file. -/
example :
    let compiler : Compiler := ⟨.ok (), fun source name => .ok (name ++ source)⟩
    let files : FileTree := ⟨[([[0x64]], .directory), ([[0x64], [0x78]], .file [0x0D, 0x0A])]⟩
    chunkAt compiler (.ofText "d/x") { source := true } files = .ok [0x40, 0x78, 0x0A] := by
  rfl

theorem readInput_of_read (hsource : s.source = false) :
    readInput compiler input s = readChunkFile input := by
  rw [readInput, hsource]
  rfl

theorem readInput_of_source (hsource : s.source = true) : readInput compiler input s =
    (do compileSource compiler (chunkName input) (← liftResult (textOf (← readFile input)))) := by
  rw [readInput, if_pos hsource]

theorem labelOr_chunkName (input : Path) :
    labelOr defaultChunkName (chunkName input) = chunkName input := by
  have hnonempty : (chunkName input).isEmpty = false := rfl
  rw [labelOr, hnonempty]
  rfl

theorem run_readInput_of_text {content : Bytes} {text : Text} (hsource : s.source = true)
    (hread : st.files.read input = .ok content) (htext : textOf content = .ok text) :
    (readInput compiler input s).run st =
      match compile compiler (chunkName input) text with
      | .error f => (.error f, st)
      | .ok data => (.ok data, st.log (compiledRecord text data)) := by
  have hlift : (liftResult (textOf content)).run st = (.ok text, st) := by
    rw [run_liftResult, htext]
  rw [readInput_of_source hsource, Action.run_bind_of_ok (run_readFile_of_ok hread),
    Action.run_bind_of_ok hlift, run_compileSource, labelOr_chunkName]

/-- Reading the input logs once if it gives a chunk. -/
theorem run_readInput_of_ok {data : Bytes} (h : chunkAt compiler input s st.files = .ok data) :
    ∃ record : Log.Record, record.level ≠ .error ∧
      (readInput compiler input s).run st = (.ok data, st.log record) := by
  cases hsource : s.source with
  | false =>
    refine ⟨readRecord input data, nofun, ?_⟩
    rw [readInput_of_read hsource, run_readChunkFile, (chunkAt_eq_ok_iff hsource).mp h]
  | true =>
    obtain ⟨content, text, hread, htext, hcompile⟩ := (chunkAt_source_eq_ok_iff hsource).mp h
    refine ⟨compiledRecord text data, nofun, ?_⟩
    rw [run_readInput_of_text hsource hread htext, hcompile]

theorem run_readInput_of_error {f : Failure} (h : chunkAt compiler input s st.files = .error f) :
    (readInput compiler input s).run st = (.error f, st) := by
  cases hsource : s.source with
  | false =>
    rw [chunkAt_of_read hsource, Action.mapError_eq_error_iff] at h
    obtain ⟨fault, hfault, rfl⟩ := h
    rw [readInput_of_read hsource, run_readChunkFile, hfault]
  | true =>
    rw [chunkAt, hsource] at h
    rcases Action.bind_eq_error_iff.mp h with hread | ⟨content, hread, h⟩
    · rw [readInput_of_source hsource]
      refine Action.run_bind_of_error ?_
      rw [run_readFile, hread]
    rw [Action.mapError_eq_ok_iff] at hread
    rcases Action.bind_eq_error_iff.mp h with htext | ⟨text, htext, hcompile⟩
    · rw [readInput_of_source hsource, Action.run_bind_of_ok (run_readFile_of_ok hread)]
      refine Action.run_bind_of_error ?_
      rw [run_liftResult, htext]
    · rw [run_readInput_of_text hsource hread htext, hcompile]

theorem run_readInput_fst :
    ((readInput compiler input s).run st).1 = chunkAt compiler input s st.files := by
  cases h : chunkAt compiler input s st.files with
  | ok data =>
    obtain ⟨record, _, hrun⟩ := run_readInput_of_ok h
    rw [hrun]
  | error f => rw [run_readInput_of_error h]

theorem gives_readInput (h : st.traces = []) (compiler : Option Compiler) (input : Path)
    (s : Settings) :
    (readInput compiler input s).Gives st (chunkAt compiler input s st.files) := by
  cases hchunk : chunkAt compiler input s st.files with
  | ok data =>
    obtain ⟨record, hlevel, hrun⟩ := run_readInput_of_ok hchunk
    exact ⟨_, hrun, Quiet.log h hlevel⟩
  | error f => exact ⟨st, run_readInput_of_error hchunk, Quiet.refl h⟩

end

/-! ### What breaks a run off -/

theorem file_break_iff {input : Path} {f : Failure} {α : Type} {r : Except FileFault α} :
    (r.mapError Failure.file = .error f ∧ f.report? input = none) ↔
      ∃ g, r = .error (.path g) ∧ f = .file (.path g) := by
  rw [Action.mapError_eq_error_iff]
  constructor
  · rintro ⟨⟨fault, hfault, rfl⟩, hreport⟩
    cases fault with
    | system e => cases hreport
    | path g => exact ⟨g, hfault, rfl⟩
  · rintro ⟨g, hfault, rfl⟩
    exact ⟨⟨_, hfault, rfl⟩, rfl⟩

/-- What breaks off the reading of the input, with the failure that comes of it. -/
inductive InputBreak (compiler : Option Compiler) (input : Path) (s : Settings) (t : FileTree) :
    Failure → Prop
  | path {g : PathFault} (hencode : input.encode = .error g) :
    InputBreak compiler input s t (.file (.path g))
  | text {content : Bytes} {m : Utf8.Malformed} (hsource : s.source = true)
    (hread : t.read input = .ok content) (htext : Utf8.decode content = .error m) :
    InputBreak compiler input s t (.text m)
  | compilation {content : Bytes} {text : Text} {c : Compiler} {f : Failure}
    (hsource : s.source = true) (hread : t.read input = .ok content)
    (htext : textOf content = .ok text) (hcompiler : compiler = some c)
    (hbreak : CompilationBreak c (chunkName input) text f) : InputBreak compiler input s t f

theorem chunkAt_break_iff {compiler : Option Compiler} {input : Path} {s : Settings} {t : FileTree}
    {f : Failure} : (chunkAt compiler input s t = .error f ∧ f.report? input = none) ↔
      InputBreak compiler input s t f := by
  cases hsource : s.source with
  | false =>
    rw [chunkAt_of_read hsource, file_break_iff]
    simp only [FileTree.read_eq_path_iff]
    constructor
    · rintro ⟨g, hencode, rfl⟩
      exact .path hencode
    · intro h
      cases h with
      | path hencode => exact ⟨_, hencode, rfl⟩
      | text hsource' | compilation hsource' => cases hsource.symm.trans hsource'
  | true =>
    rw [chunkAt, hsource, Action.bind_eq_error_iff, or_and_right, file_break_iff]
    simp only [FileTree.read_eq_path_iff, Action.mapError_eq_ok_iff]
    constructor
    · rintro (⟨g, hencode, rfl⟩ | ⟨⟨content, hread, h⟩, hreport⟩)
      · exact .path hencode
      rcases Action.bind_eq_error_iff.mp h with htext | ⟨text, htext, hcompile⟩
      · obtain ⟨m, hdecode, rfl⟩ := textOf_eq_error_iff.mp htext
        exact .text hsource hread hdecode
      · obtain ⟨c, hcompiler, hbreak⟩ :=
          (compile_break_iff input (hasSurrogate_of_textOf htext)).mp ⟨hcompile, hreport⟩
        exact .compilation hsource hread htext hcompiler hbreak
    · intro h
      cases h with
      | path hencode => exact .inl ⟨_, hencode, rfl⟩
      | text _ hread hdecode =>
        refine .inr ⟨⟨_, hread, Action.bind_eq_error_iff.mpr (.inl ?_)⟩, rfl⟩
        exact textOf_eq_error_iff.mpr ⟨_, hdecode, rfl⟩
      | compilation _ hread htext hcompiler hbreak =>
        obtain ⟨hcompile, hreport⟩ :=
          (compile_break_iff input (hasSurrogate_of_textOf htext)).mpr ⟨_, hcompiler, hbreak⟩
        exact .inr ⟨⟨_, hread, Action.bind_eq_error_iff.mpr (.inr ⟨_, htext, hcompile⟩)⟩, hreport⟩

end CommandLine

end LuaBytecode
