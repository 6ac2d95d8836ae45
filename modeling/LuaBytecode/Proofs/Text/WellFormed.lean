import LuaBytecode.Proofs.Text.Pieces

/-!
# Well-formed byte strings

A byte string is well-formed if it is the encoding of a text without surrogates. Every policy reads
that text, so that policies differ on malformed strings only. The bytes of a malformed string that
are no part of a character are written as surrogates if the policy is to keep them; there is at
least one, so that the text tells that the string is malformed.
-/

namespace LuaBytecode

namespace Utf8

/-! ### Encodings are cut into their characters -/

theorem toNat_ofNat_byte {n : Nat} (h : n < 0x100) : (UInt8.ofNat n).toNat = n :=
  UInt8.toNat_ofNat_of_lt' h

theorem piecesFrom_cons (held : Option Pending) (b : UInt8) (rest : Bytes) :
    piecesFrom held (b :: rest) = (advance held b).1 ++ piecesFrom (advance held b).2 rest := by
  cases held <;> rfl

section

variable {taken : Bytes} {number low high further : Nat} {b : UInt8}
  (h : low ≤ b.toNat ∧ b.toNat ≤ high)

include h

theorem piecesFrom_continue (rest : Bytes) :
    piecesFrom (some ⟨taken, number, low, high, further + 1⟩) (b :: rest) =
      piecesFrom (some ⟨taken ++ [b], number * 64 + (b.toNat - 0x80), 0x80, 0xBF, further⟩)
        rest := by
  rw [piecesFrom_cons, advance, if_pos h]
  rfl

theorem piecesFrom_complete (rest : Bytes) :
    piecesFrom (some ⟨taken, number, low, high, 0⟩) (b :: rest) =
      .char (.ofNat (number * 64 + (b.toNat - 0x80))) :: piecesFrom none rest := by
  rw [piecesFrom_cons, advance, if_pos h]
  rfl

end

theorem piecesFrom_encode {c : CodePoint} (hc : c.isSurrogate = false) (rest : Bytes) :
    piecesFrom none (encode c ++ rest) = .char c :: piecesFrom none rest := by
  have hnot : ¬(0xD800 ≤ c.val ∧ c.val ≤ 0xDFFF) := by
    rw [← CodePoint.isSurrogate_eq_true_iff, hc]
    exact Bool.false_ne_true
  have hlt := c.isLt
  have hself : ∀ n, n = c.val → CodePoint.ofNat n = c := by
    rintro n rfl
    exact Fin.ofNat_val_eq_self c
  unfold encode
  simp only
  by_cases hone : c.val < 0x80
  · have ha := toNat_ofNat_byte (n := c.val) (by omega)
    rw [if_pos hone, List.singleton_append, piecesFrom_cons, advance, startWith, ha, if_pos hone,
      hself _ rfl]
    rfl
  rw [if_neg hone]
  by_cases htwo : c.val < 0x800
  · have ha := toNat_ofNat_byte (n := 0xC0 + c.val / 64) (by omega)
    have hb := toNat_ofNat_byte (n := 0x80 + c.val % 64) (by omega)
    rw [if_pos htwo, List.cons_append, piecesFrom_cons, advance, startWith, ha, if_neg (by omega),
      if_neg (by omega), if_pos (by omega), List.singleton_append, List.nil_append,
      piecesFrom_complete (by omega), hb, hself _ (by omega)]
  rw [if_neg htwo]
  by_cases hthree : c.val < 0x10000
  · have ha := toNat_ofNat_byte (n := 0xE0 + c.val / 4096) (by omega)
    have hb := toNat_ofNat_byte (n := 0x80 + c.val / 64 % 64) (by omega)
    have hd := toNat_ofNat_byte (n := 0x80 + c.val % 64) (by omega)
    rw [if_pos hthree, List.cons_append, piecesFrom_cons, advance, startWith, ha,
      if_neg (by omega), if_neg (by omega), if_neg (by omega), if_pos (by omega), List.cons_append,
      List.singleton_append, List.nil_append,
      piecesFrom_continue (by constructor <;> split <;> omega), piecesFrom_complete (by omega), hb,
      hd, hself _ (by omega)]
  · have ha := toNat_ofNat_byte (n := 0xF0 + c.val / 262144) (by omega)
    have hb := toNat_ofNat_byte (n := 0x80 + c.val / 4096 % 64) (by omega)
    have hd := toNat_ofNat_byte (n := 0x80 + c.val / 64 % 64) (by omega)
    have he := toNat_ofNat_byte (n := 0x80 + c.val % 64) (by omega)
    rw [if_neg hthree, List.cons_append, piecesFrom_cons, advance, startWith, ha,
      if_neg (by omega), if_neg (by omega), if_neg (by omega), if_neg (by omega),
      if_pos (by omega), List.cons_append, List.cons_append, List.singleton_append,
      List.nil_append, piecesFrom_continue (by constructor <;> split <;> omega),
      piecesFrom_continue (by omega), piecesFrom_complete (by omega), hb, hd, he,
      hself _ (by omega)]

theorem pieces_flatMap_encode {cs : List CodePoint} (h : ∀ c ∈ cs, c.isSurrogate = false) :
    pieces (cs.flatMap encode) = cs.map .char := by
  induction cs with
  | nil => rfl
  | cons c rest ih =>
    have hc := h c List.mem_cons_self
    have hrest := ih fun d hd => h d (List.mem_cons_of_mem c hd)
    rw [List.flatMap_cons, pieces, piecesFrom_encode hc, List.map_cons, ← hrest]
    rfl

theorem encode?_eq_some_iff {t : Text} {data : Bytes} :
    encode? t = some data ↔ pieces data = t.codes.map .char := by
  have hcodes : t.hasSurrogate = false ↔ ∀ c ∈ t.codes, c.isSurrogate = false := by
    simp [Text.hasSurrogate]
  unfold encode?
  constructor
  · intro hencode
    by_cases hsurrogate : t.hasSurrogate = true
    · rw [if_pos hsurrogate] at hencode
      cases hencode
    · rw [if_neg hsurrogate] at hencode
      cases hencode
      exact pieces_flatMap_encode (hcodes.mp (Bool.eq_false_iff.mpr hsurrogate))
  · intro hpieces
    have hnone : t.hasSurrogate = false := by
      rw [hcodes]
      intro c hc
      have hmem : Piece.char c ∈ pieces data := hpieces ▸ List.mem_map_of_mem hc
      exact sound_of_mem_pieces hmem
    have hbytes := flatMap_bytes_pieces data
    rw [hpieces, List.flatMap_map] at hbytes
    rw [hnone, ← hbytes]
    rfl

/-! ### Malformed pieces -/

/-- What a step leaves, pieces and an open character, holds at least one byte each. -/
structure Filled (next : List Piece × Option Pending) : Prop where
  pieces : ∀ reason bytes, .malformed reason bytes ∈ next.1 → bytes ≠ []
  held : ∀ p ∈ next.2, p.taken ≠ []

theorem filled_startWith (b : UInt8) : Filled (startWith b) := by
  unfold startWith
  simp only
  repeat' split
  all_goals constructor <;> simp

theorem filled_advance {held : Option Pending} (h : ∀ p ∈ held, p.taken ≠ []) (b : UInt8) :
    Filled (advance held b) := by
  cases held with
  | none => exact filled_startWith b
  | some p =>
    simp only [advance]
    by_cases hb : p.low ≤ b.toNat ∧ b.toNat ≤ p.high
    · rw [if_pos hb, Pending.extend]
      split <;> constructor <;> simp
    · rw [if_neg hb]
      have hnext := filled_startWith b
      refine ⟨?_, hnext.held⟩
      intro reason bytes hmem
      rcases List.mem_cons.mp hmem with heq | hmem
      · cases heq
        exact h p rfl
      · exact hnext.pieces reason bytes hmem

theorem filled_piecesFrom (data : Bytes) {held : Option Pending} (h : ∀ p ∈ held, p.taken ≠ []) :
    Filled (piecesFrom held data, none) := by
  induction data generalizing held with
  | nil =>
    cases held with
    | none => constructor <;> simp [piecesFrom]
    | some p =>
      have hp := h p rfl
      constructor <;> simp [piecesFrom, hp]
  | cons b rest ih =>
    have hstep := filled_advance h b
    have hrest := ih hstep.held
    rw [piecesFrom_cons]
    refine ⟨?_, by simp⟩
    intro reason bytes hmem
    rcases List.mem_append.mp hmem with hmem | hmem
    · exact hstep.pieces reason bytes hmem
    · exact hrest.pieces reason bytes hmem

theorem ne_nil_of_malformed_mem {data : Bytes} {reason : Reason} {bytes : Bytes}
    (h : .malformed reason bytes ∈ pieces data) : bytes ≠ [] :=
  (filled_piecesFrom data (by simp)).pieces reason bytes h

theorem eq_chars_of_escaped {ps : List Piece} (h : ∀ p ∈ ps, ∃ c, p = .char c) :
    ps = (ps.flatMap Piece.escaped).map .char := by
  induction ps with
  | nil => rfl
  | cons p rest ih =>
    obtain ⟨c, rfl⟩ := h p List.mem_cons_self
    have hrest := ih fun q hq => h q (List.mem_cons_of_mem _ hq)
    rw [List.flatMap_cons, Piece.escaped, List.singleton_append, List.map_cons, ← hrest]

theorem textOfPieces_chars (substitute : Bytes → Option (List CodePoint)) (start : Nat)
    (cs : List CodePoint) : textOfPieces substitute start (cs.map .char) = .ok cs := by
  induction cs generalizing start with
  | nil => rfl
  | cons c rest ih =>
    rw [List.map_cons, textOfPieces, ih]
    rfl

/-- Where every malformed piece is refused, there is none. -/
theorem eq_chars_of_textOfPieces {substitute : Bytes → Option (List CodePoint)}
    (h : ∀ bytes, substitute bytes = none) {start : Nat} {ps : List Piece} {cs : List CodePoint}
    (hcodes : textOfPieces substitute start ps = .ok cs) : ps = cs.map .char := by
  induction ps generalizing start cs with
  | nil =>
    cases hcodes
    rfl
  | cons p rest ih =>
    cases p with
    | char c =>
      rw [textOfPieces] at hcodes
      cases hrest : textOfPieces substitute (start + (encode c).length) rest with
      | ok codes =>
        rw [hrest] at hcodes
        cases hcodes
        rw [List.map_cons, ih hrest]
      | error m =>
        rw [hrest] at hcodes
        cases hcodes
    | malformed reason bytes =>
      simp only [textOfPieces, h bytes] at hcodes
      cases hcodes

theorem exists_textOfPieces {substitute : Bytes → Option (List CodePoint)}
    (h : ∀ bytes, ∃ codes, substitute bytes = some codes) (start : Nat) (ps : List Piece) :
    ∃ codes, textOfPieces substitute start ps = .ok codes := by
  obtain ⟨write, hwrite⟩ := Classical.skolem.mp h
  exact ⟨_, textOfPieces_written hwrite start ps⟩

end Utf8

/-! ### What the policies read -/

namespace Policy

theorem passSurrogates_chars (cs : List CodePoint) :
    passSurrogates (cs.map .char) = cs.map .char := by
  induction cs with
  | nil => rfl
  | cons c rest ih =>
    cases rest with
    | nil => rfl
    | cons d rest =>
      cases rest with
      | nil => rfl
      | cons e rest =>
        simp only [List.map_cons, passSurrogates, encodedSurrogate?]
        exact congrArg _ ih

/-- Every policy reads the text of a well-formed string. -/
theorem read_of_encode? {t : Text} {payload : Bytes} (h : Utf8.encode? t = some payload)
    (p : Policy) : p.read payload = .ok t := by
  have hpieces := Utf8.encode?_eq_some_iff.mp h
  have hprepare : p.prepare (t.codes.map .char) = t.codes.map .char := by
    cases p with
    | surrogatePass => exact passSurrogates_chars t.codes
    | _ => rfl
  rw [read, hpieces, hprepare, Utf8.textOfPieces_chars]

/-- The strict policy reads well-formed strings only. -/
theorem read_strict_eq_ok_iff {payload : Bytes} {t : Text} :
    Policy.strict.read payload = .ok t ↔ Utf8.encode? t = some payload := by
  constructor
  · intro hread
    rw [Utf8.encode?_eq_some_iff]
    have hprepare : Policy.strict.prepare (Utf8.pieces payload) = Utf8.pieces payload := rfl
    unfold read at hread
    rw [hprepare] at hread
    cases hcodes : Utf8.textOfPieces Policy.strict.substitute 0 (Utf8.pieces payload) with
    | ok codes =>
      rw [hcodes] at hread
      cases hread
      exact Utf8.eq_chars_of_textOfPieces (fun _ => rfl) hcodes
    | error m =>
      rw [hcodes] at hread
      cases hread
  · intro h
    exact read_of_encode? h _

/-- A text in which malformed bytes are kept as surrogates tells whether there are any. -/
theorem encode?_ofBytes_iff (payload : Bytes) :
    Utf8.encode? (Text.ofBytes payload) = some payload ↔
      ∀ c ∈ (Text.ofBytes payload).codes, c.isEscapedByte = false := by
  rw [Utf8.encode?_eq_some_iff, Text.ofBytes]
  constructor
  · intro hpieces c hc
    have hmem : Utf8.Piece.char c ∈ Utf8.pieces payload := hpieces ▸ List.mem_map_of_mem hc
    exact CodePoint.isEscapedByte_of_not_surrogate (Utf8.sound_of_mem_pieces hmem)
  · intro hclean
    apply Utf8.eq_chars_of_escaped
    intro p hp
    cases p with
    | char c => exact ⟨c, rfl⟩
    | malformed reason bytes =>
      obtain ⟨b, rest, rfl⟩ := List.exists_cons_of_ne_nil (Utf8.ne_nil_of_malformed_mem hp)
      have hhigh : 0x80 ≤ b.toNat := Utf8.sound_of_mem_pieces hp b List.mem_cons_self
      have hmem : escapedByte b ∈ (Utf8.pieces payload).flatMap Utf8.Piece.escaped :=
        List.mem_flatMap.mpr ⟨_, hp, List.mem_cons_self⟩
      cases (hclean _ hmem).symm.trans (isEscapedByte_escapedByte hhigh)

/-- The strict policy reads what is read without keeping a malformed byte. -/
theorem read_strict_eq_ok_iff_escape {payload : Bytes} {t : Text} :
    Policy.strict.read payload = .ok t ↔ Policy.surrogateEscape.read payload = .ok t ∧
      ∀ c ∈ t.codes, c.isEscapedByte = false := by
  rw [read_strict_eq_ok_iff, read_surrogateEscape, Except.ok.injEq]
  constructor
  · intro h
    have htext := (read_surrogateEscape payload).symm.trans (read_of_encode? h .surrogateEscape)
    cases htext
    exact ⟨rfl, (encode?_ofBytes_iff payload).mp h⟩
  · rintro ⟨rfl, hclean⟩
    exact (encode?_ofBytes_iff payload).mpr hclean

def lossyPolicies : List Policy := [.ignore, .replace, .backslashReplace, .surrogateEscape]

/-- The policies that write something for a malformed piece refuse no string. -/
theorem exists_read_of_lossy {p : Policy} (h : p ∈ lossyPolicies) (payload : Bytes) :
    ∃ t, p.read payload = .ok t := by
  have hsubstitute : ∀ bytes, ∃ codes, p.substitute bytes = some codes := by
    intro bytes
    simp only [lossyPolicies, List.mem_cons, List.not_mem_nil, or_false] at h
    rcases h with rfl | rfl | rfl | rfl
    · exact ⟨_, rfl⟩
    · exact ⟨_, rfl⟩
    · exact ⟨_, rfl⟩
    · exact ⟨_, rfl⟩
  obtain ⟨codes, hcodes⟩ :=
    Utf8.exists_textOfPieces hsubstitute 0 (p.prepare (Utf8.pieces payload))
  exact ⟨⟨codes⟩, by rw [read, hcodes]⟩

end Policy

end LuaBytecode
