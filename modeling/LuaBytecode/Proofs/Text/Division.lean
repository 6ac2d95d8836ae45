import LuaBytecode.Proofs.Text.WellFormed

/-!
# The division of a byte string

What the cut of a byte string is, without the machine that makes it. Where the encoding of a
character begins the character is cut off. Elsewhere the longest start of an encoding is cut off, or
one byte where not even that begins an encoding, and the reason says which of the two it is and
whether the end or a byte has broken off the character. A byte string has one such division, which is
the one that the machine makes.
-/

namespace LuaBytecode.Utf8

/-- The bytes begin the encoding of a character. -/
def Begins (bytes : Bytes) : Prop := ∃ c : CodePoint, c.isSurrogate = false ∧ bytes <+: encode c

/-- Before `rest` the bytes are a maximal malformed piece. -/
structure Broken (reason : Reason) (bytes rest : Bytes) : Prop where
  ne_nil : bytes ≠ []
  no_character : ∀ c : CodePoint, c.isSurrogate = false → ¬encode c <+: bytes ++ rest
  begins : Begins bytes ∨ bytes.length = 1
  longest : ∀ more, more <+: bytes ++ rest → Begins more → more.length ≤ bytes.length
  startByte : reason = .startByte ↔ ¬Begins bytes
  endOfData : reason = .endOfData ↔ Begins bytes ∧ rest = []

inductive Division : Bytes → List Piece → Prop
  | nil : Division [] []
  | char {c : CodePoint} {rest : Bytes} {ps : List Piece} (hc : c.isSurrogate = false)
      (hrest : Division rest ps) : Division (encode c ++ rest) (.char c :: ps)
  | malformed {reason : Reason} {bytes rest : Bytes} {ps : List Piece}
      (hbroken : Broken reason bytes rest) (hrest : Division rest ps) :
      Division (bytes ++ rest) (.malformed reason bytes :: ps)

/-! ### It is unique -/

theorem Begins.mono {bytes more : Bytes} (hmore : Begins more) (h : bytes <+: more) :
    Begins bytes := by
  obtain ⟨c, hc, hstart⟩ := hmore
  exact ⟨c, hc, h.trans hstart⟩

theorem length_encode (c : CodePoint) : 0 < (encode c).length ∧ (encode c).length ≤ 4 := by
  unfold encode
  simp only
  split
  · simp
  split
  · simp
  split
  · simp
  · simp

theorem encode_append_ne_nil (c : CodePoint) (rest : Bytes) : encode c ++ rest ≠ [] := by
  have hpos := (length_encode c).1
  exact List.append_ne_nil_of_left_ne_nil (List.length_pos_iff.mp hpos) rest

theorem pieces_encode_append {c : CodePoint} (hc : c.isSurrogate = false) (rest : Bytes) :
    pieces (encode c ++ rest) = .char c :: pieces rest := piecesFrom_encode hc rest

/-- No character is encoded by the beginning of what encodes another. -/
theorem encode_append_inj {c d : CodePoint} {x y : Bytes} (hc : c.isSurrogate = false)
    (hd : d.isSurrogate = false) (h : encode c ++ x = encode d ++ y) : c = d ∧ x = y := by
  have hpieces := congrArg pieces h
  rw [pieces_encode_append hc, pieces_encode_append hd] at hpieces
  obtain rfl : c = d := Piece.char.inj (List.cons.inj hpieces).1
  exact ⟨rfl, List.append_cancel_left h⟩

namespace Broken

variable {reason reason' : Reason} {bytes bytes' rest rest' : Bytes}

/-- A malformed piece is as long as any other that begins in the same place. -/
theorem length_le (h : Broken reason bytes rest) (h' : Broken reason' bytes' rest')
    (hsame : bytes' ++ rest' = bytes ++ rest) : bytes'.length ≤ bytes.length := by
  rcases h'.begins with hbegins | hone
  · exact h.longest bytes' (hsame ▸ List.prefix_append bytes' rest') hbegins
  · have hpos := List.length_pos_iff.mpr h.ne_nil
    omega

theorem eq_of_append (h : Broken reason bytes rest) (h' : Broken reason' bytes' rest')
    (hsame : bytes' ++ rest' = bytes ++ rest) :
    reason' = reason ∧ bytes' = bytes ∧ rest' = rest := by
  obtain ⟨rfl, rfl⟩ := List.append_inj hsame
    (Nat.le_antisymm (h.length_le h' hsame) (h'.length_le h hsame.symm))
  refine ⟨?_, rfl, rfl⟩
  have hstart := h'.startByte.trans h.startByte.symm
  have hend := h'.endOfData.trans h.endOfData.symm
  cases reason <;> cases reason' <;> simp_all

theorem length_le_three (h : Broken reason bytes rest) : bytes.length ≤ 3 := by
  rcases h.begins with ⟨c, hc, hstart⟩ | hone
  · refine Nat.le_of_not_lt fun hlong => ?_
    have hwhole : bytes = encode c :=
      hstart.eq_of_length_le (Nat.le_trans (length_encode c).2 hlong)
    exact h.no_character c hc (hwhole ▸ List.prefix_append bytes rest)
  · omega

end Broken

theorem Division.broken_head {data : Bytes} {reason : Reason} {bytes : Bytes} {ps : List Piece}
    (h : Division data (.malformed reason bytes :: ps)) :
    ∃ rest, data = bytes ++ rest ∧ Broken reason bytes rest := by
  cases h with
  | malformed hbroken _ => exact ⟨_, rfl, hbroken⟩

theorem Division.unique {data : Bytes} {ps qs : List Piece} (hp : Division data ps)
    (hq : Division data qs) : qs = ps := by
  induction hp generalizing qs with
  | nil =>
    generalize hdata : ([] : Bytes) = data at hq
    cases hq with
    | nil => rfl
    | @char c rest => exact absurd hdata.symm (encode_append_ne_nil c rest)
    | malformed hbroken => exact absurd (List.append_eq_nil_iff.mp hdata.symm).1 hbroken.ne_nil
  | @char c rest ps hc hrest ih =>
    generalize hdata : encode c ++ rest = data at hq
    cases hq with
    | nil => exact absurd hdata (encode_append_ne_nil c rest)
    | char hd hrest' =>
      obtain ⟨rfl, rfl⟩ := encode_append_inj hc hd hdata
      rw [ih hrest']
    | malformed hbroken => exact absurd ⟨rest, hdata⟩ (hbroken.no_character c hc)
  | @malformed reason bytes rest ps hbroken hrest ih =>
    generalize hdata : bytes ++ rest = data at hq
    cases hq with
    | nil => exact absurd (List.append_eq_nil_iff.mp hdata).1 hbroken.ne_nil
    | @char d rest' _ hd => exact absurd ⟨rest', hdata.symm⟩ (hbroken.no_character d hd)
    | malformed hbroken' hrest' =>
      obtain ⟨rfl, rfl, rfl⟩ := hbroken.eq_of_append hbroken' hdata.symm
      rw [ih hrest']

/-! ### The machine makes it -/

/-- The character is held open after the bytes that it has taken, and some byte continues it. -/
structure Pending.Reached (p : Pending) : Prop where
  sound : p.Sound
  taken_ne_nil : p.taken ≠ []
  range : p.low ≤ p.high ∧ p.high ≤ 0xBF
  run : ∀ rest, piecesFrom none (p.taken ++ rest) = piecesFrom (some p) rest

theorem Encodes.isSurrogate_eq_false {n : Nat} {bytes : Bytes} (h : Encodes n bytes) :
    (CodePoint.ofNat n).isSurrogate = false := by
  rw [Bool.eq_false_iff, Ne, CodePoint.isSurrogate_eq_true_iff, CodePoint.val_ofNat h.lt]
  exact h.not_surrogate

/-- Each of the bytes that a character needs can be had, so that the bytes taken begin one. -/
theorem begins_of_completes {further : Nat} {taken : Bytes} {number low high : Nat}
    (h : Completes further taken number low high) (hrange : low ≤ high ∧ high ≤ 0xBF) :
    Begins taken := by
  induction further generalizing taken number low high with
  | zero =>
    have hlow := toNat_ofNat_byte (n := low) (by omega)
    have hencodes := h (UInt8.ofNat low) (by omega)
    exact ⟨_, hencodes.isSurrogate_eq_false, hencodes.encode_eq ▸ List.prefix_append taken _⟩
  | succ further ih =>
    have hlow := toNat_ofNat_byte (n := low) (by omega)
    exact (ih (h (UInt8.ofNat low) (by omega)) (by omega)).mono
      (List.prefix_append taken [UInt8.ofNat low])

theorem piecesFrom_break {p : Pending} {b : UInt8}
    (hb : ¬(p.low ≤ b.toNat ∧ b.toNat ≤ p.high)) (rest : Bytes) :
    piecesFrom (some p) (b :: rest) =
      .malformed .continuationByte p.taken :: piecesFrom none (b :: rest) := by
  rw [piecesFrom_cons none, advance, piecesFrom_cons (some p), advance, if_neg hb]
  rfl

namespace Pending.Reached

variable {p : Pending}

theorem begins (h : p.Reached) : Begins p.taken := begins_of_completes h.sound.completes h.range

/-- A byte out of the range breaks off every character that the bytes taken begin. -/
theorem not_begins (h : p.Reached) {b : UInt8} (hb : ¬(p.low ≤ b.toNat ∧ b.toNat ≤ p.high))
    (rest : Bytes) : ¬Begins (p.taken ++ b :: rest) := by
  rintro ⟨c, hc, more, hmore⟩
  have hchar := pieces_encode_append hc []
  rw [List.append_nil, ← hmore, pieces, List.append_assoc, List.cons_append, h.run,
    piecesFrom_break hb] at hchar
  cases (List.cons.inj hchar).1

end Pending.Reached

theorem not_character_of_malformed {reason : Reason} {bytes data : Bytes} {ps : List Piece}
    (h : pieces data = .malformed reason bytes :: ps) (c : CodePoint)
    (hc : c.isSurrogate = false) : ¬encode c <+: data := by
  rintro ⟨rest, rfl⟩
  rw [pieces_encode_append hc] at h
  cases (List.cons.inj h).1

/-- The longest start of an encoding ends before the byte with which nothing begins any more. -/
theorem length_le_of_begins {bytes more rest : Bytes} {b : UInt8} (h : ¬Begins (bytes ++ [b]))
    (hstart : more <+: bytes ++ b :: rest) (hmore : Begins more) : more.length ≤ bytes.length := by
  refine Nat.le_of_not_lt fun hlong => h ?_
  have hnext : bytes ++ [b] <+: bytes ++ b :: rest := by
    rw [List.append_cons bytes b rest]
    exact List.prefix_append _ rest
  refine hmore.mono (List.prefix_of_prefix_length_le hnext hstart ?_)
  rw [List.length_append, List.length_singleton]
  exact hlong

namespace Pending.Reached

variable {p : Pending}

theorem broken_end (h : p.Reached) : Broken .endOfData p.taken [] where
  ne_nil := h.taken_ne_nil
  no_character := not_character_of_malformed (h.run [])
  begins := .inl h.begins
  longest more hstart _ := by
    rw [List.append_nil] at hstart
    exact hstart.length_le
  startByte := iff_of_false (by decide) (not_not_intro h.begins)
  endOfData := iff_of_true rfl ⟨h.begins, rfl⟩

theorem broken_continuation (h : p.Reached) {b : UInt8}
    (hb : ¬(p.low ≤ b.toNat ∧ b.toNat ≤ p.high)) (rest : Bytes) :
    Broken .continuationByte p.taken (b :: rest) where
  ne_nil := h.taken_ne_nil
  no_character := not_character_of_malformed ((h.run _).trans (piecesFrom_break hb rest))
  begins := .inl h.begins
  longest _ := length_le_of_begins (h.not_begins hb [])
  startByte := iff_of_false (by decide) (not_not_intro h.begins)
  endOfData := iff_of_false (by decide) fun hend => by cases hend.2

end Pending.Reached

/-- What a byte between characters does. -/
inductive Starts (b : UInt8) : Prop
  | char (c : CodePoint) (hc : c.isSurrogate = false) (hencode : encode c = [b])
      (hstart : startWith b = ([.char c], none))
  | malformed (hstart : startWith b = ([.malformed .startByte [b]], none))
  | held (p : Pending) (hp : p.Reached) (htaken : p.taken = [b])
      (hstart : startWith b = ([], some p))

theorem starts (b : UInt8) : Starts b := by
  have hcut := cut_startWith b
  have hheld : ∀ {number low high further : Nat},
      startWith b = ([], some ⟨[b], number, low, high, further⟩) → low ≤ high ∧ high ≤ 0xBF →
        Starts b := by
    intro number low high further hstart hrange
    rw [hstart] at hcut
    refine .held _ ⟨hcut.held _ rfl, List.cons_ne_nil b [], hrange, fun rest => ?_⟩ rfl hstart
    rw [List.singleton_append, piecesFrom_cons, advance, hstart]
    rfl
  by_cases hascii : b.toNat < 0x80
  · have hencodes := encodes_one hascii
    refine .char (.ofNat b.toNat) (hencodes.isSurrogate_eq_false) hencodes.encode_eq ?_
    rw [startWith, if_pos hascii]
  by_cases hstart : b.toNat < 0xC2
  · refine .malformed ?_
    simp only [startWith, if_neg hascii, if_pos hstart]
  by_cases htwo : b.toNat < 0xE0
  · refine hheld (by simp only [startWith, if_neg hascii, if_neg hstart, if_pos htwo]; rfl) ?_
    omega
  by_cases hthree : b.toNat < 0xF0
  · refine hheld (by
      simp only [startWith, if_neg hascii, if_neg hstart, if_neg htwo, if_pos hthree]; rfl) ?_
    split <;> split <;> omega
  by_cases hfour : b.toNat < 0xF5
  · refine hheld (by
      simp only [startWith, if_neg hascii, if_neg hstart, if_neg htwo, if_neg hthree,
        if_pos hfour]; rfl) ?_
    split <;> split <;> omega
  · refine .malformed ?_
    simp only [startWith, if_neg hascii, if_neg hstart, if_neg htwo, if_neg hthree, if_neg hfour]

/-- The byte can begin no character, so that nothing longer is broken off. -/
theorem broken_startByte {b : UInt8} (h : startWith b = ([.malformed .startByte [b]], none))
    (rest : Bytes) : Broken .startByte [b] rest := by
  have hpieces : ∀ rest, pieces ([b] ++ rest) = .malformed .startByte [b] :: pieces rest := by
    intro rest
    rw [pieces, List.singleton_append, piecesFrom_cons, advance, h]
    rfl
  have hnot : ¬Begins [b] := by
    rintro ⟨c, hc, more, hmore⟩
    exact not_character_of_malformed (hpieces more) c hc ⟨[], by rw [List.append_nil, hmore]⟩
  refine ⟨List.cons_ne_nil b [], not_character_of_malformed (hpieces rest), .inr rfl, ?_,
    iff_of_true rfl hnot, iff_of_false (by decide) fun hend => hnot hend.1⟩
  intro more hstart hmore
  cases more with
  | nil => exact Nat.zero_le _
  | cons x more =>
    obtain ⟨rfl, -⟩ := List.cons_prefix_cons.mp hstart
    exact absurd (hmore.mono (List.prefix_append [x] more)) hnot

namespace Pending.Reached

variable {p : Pending} {b : UInt8}

theorem extend_char (h : p.Reached) (hfurther : p.further = 0)
    (hb : p.low ≤ b.toNat ∧ b.toNat ≤ p.high) :
    ∃ c : CodePoint, c.isSurrogate = false ∧ encode c = p.taken ++ [b] ∧
      p.extend b = ([.char c], none) := by
  obtain ⟨taken, number, low, high, further⟩ := p
  cases hfurther
  have hencodes := h.sound.completes b hb
  exact ⟨_, hencodes.isSurrogate_eq_false, hencodes.encode_eq, rfl⟩

theorem extend_held (h : p.Reached) {further : Nat} (hfurther : p.further = further + 1)
    (hb : p.low ≤ b.toNat ∧ b.toNat ≤ p.high) :
    ∃ q : Pending, q.Reached ∧ q.taken = p.taken ++ [b] ∧ p.extend b = ([], some q) := by
  obtain ⟨taken, number, low, high, further'⟩ := p
  cases hfurther
  refine ⟨_, ⟨(cut_extend h.sound hb).held _ rfl, ?_, ?_, fun rest => ?_⟩, rfl, rfl⟩
  · exact List.append_ne_nil_of_right_ne_nil taken (List.cons_ne_nil b [])
  · simp only
    decide
  · rw [List.append_assoc, List.singleton_append, h.run, piecesFrom_continue hb]

end Pending.Reached

/-- What is cut from a character held open, with the bytes that it has taken, is a division. -/
def Divides (data : Bytes) : Option Pending → Prop
  | none => Division data (piecesFrom none data)
  | some p => p.Reached → Division (p.taken ++ data) (piecesFrom (some p) data)

theorem divides_nil (held : Option Pending) : Divides [] held := by
  cases held with
  | none => exact .nil
  | some p => exact fun hp => .malformed hp.broken_end .nil

theorem divides_cons_none {b : UInt8} {rest : Bytes} (ih : ∀ held, Divides rest held) :
    Divides (b :: rest) none := by
  rw [Divides, piecesFrom_cons, advance]
  cases starts b with
  | char c hc hencode hstart =>
    rw [hstart, ← List.singleton_append, ← hencode]
    exact .char hc (ih none)
  | malformed hstart =>
    rw [hstart, ← List.singleton_append]
    exact .malformed (broken_startByte hstart rest) (ih none)
  | held p hp htaken hstart =>
    rw [hstart, ← List.singleton_append, ← htaken]
    exact ih (some p) hp

theorem divides_cons_some {b : UInt8} {rest : Bytes} (ih : ∀ held, Divides rest held)
    (p : Pending) : Divides (b :: rest) (some p) := by
  intro hp
  by_cases hb : p.low ≤ b.toNat ∧ b.toNat ≤ p.high
  · rw [piecesFrom_cons, advance, if_pos hb, List.append_cons]
    cases hfurther : p.further with
    | zero =>
      obtain ⟨c, hc, hencode, hextend⟩ := hp.extend_char hfurther hb
      rw [hextend, ← hencode]
      exact .char hc (ih none)
    | succ further =>
      obtain ⟨q, hq, htaken, hextend⟩ := hp.extend_held hfurther hb
      rw [hextend, ← htaken]
      exact ih (some q) hq
  · rw [piecesFrom_break hb]
    exact .malformed (hp.broken_continuation hb rest) (divides_cons_none ih)

theorem divides (data : Bytes) (held : Option Pending) : Divides data held := by
  induction data generalizing held with
  | nil => exact divides_nil held
  | cons b rest ih =>
    cases held with
    | none => exact divides_cons_none ih
    | some p => exact divides_cons_some ih p

/-- The pieces are the one division of the bytes. -/
theorem division_iff {data : Bytes} {ps : List Piece} : Division data ps ↔ ps = pieces data := by
  constructor
  · intro h
    exact (divides data none).unique h
  · rintro rfl
    exact divides data none

end LuaBytecode.Utf8
