import LuaBytecode.Text.Policy

/-!
# The pieces of a byte string

No byte is lost when a byte string is cut. A character among the pieces is no surrogate and is
encoded by the bytes it was cut from, and a malformed piece has no byte of ASCII. What carries the
argument from byte to byte is that whatever bytes complete the open character, the bytes taken so
far and these encode the number that they give.
-/

namespace LuaBytecode

theorem CodePoint.val_ofNat {n : Nat} (h : n < 0x110000) : (CodePoint.ofNat n).val = n :=
  Nat.mod_eq_of_lt h

theorem CodePoint.isSurrogate_eq_true_iff (c : CodePoint) :
    c.isSurrogate = true ↔ 0xD800 ≤ c.val ∧ c.val ≤ 0xDFFF := by
  simp only [isSurrogate, isHighSurrogate, isLowSurrogate, Bool.or_eq_true, Bool.and_eq_true,
    decide_eq_true_eq]
  omega

namespace Utf8

theorem ofNat_eq_byte (b : UInt8) {n : Nat} (h : n = b.toNat) : UInt8.ofNat n = b := by
  rw [h, UInt8.ofNat_toNat]

/-! ### Encodings -/

/-- The number is that of a character, and the bytes are its encoding. -/
structure Encodes (n : Nat) (bytes : Bytes) : Prop where
  lt : n < 0x110000
  not_surrogate : ¬(0xD800 ≤ n ∧ n ≤ 0xDFFF)
  encode_eq : encode (.ofNat n) = bytes

theorem encodes_one {a : UInt8} (ha : a.toNat < 0x80) : Encodes a.toNat [a] := by
  have hlt : a.toNat < 0x110000 := by omega
  refine ⟨hlt, by omega, ?_⟩
  simp only [encode, CodePoint.val_ofNat hlt]
  rw [if_pos ha, UInt8.ofNat_toNat]

theorem encodes_two {a b : UInt8} (ha : 0xC2 ≤ a.toNat ∧ a.toNat < 0xE0)
    (hb : 0x80 ≤ b.toNat ∧ b.toNat ≤ 0xBF) :
    Encodes ((a.toNat - 0xC0) * 64 + (b.toNat - 0x80)) [a, b] := by
  have hlt : (a.toNat - 0xC0) * 64 + (b.toNat - 0x80) < 0x110000 := by omega
  refine ⟨hlt, by omega, ?_⟩
  simp only [encode, CodePoint.val_ofNat hlt]
  rw [if_neg (by omega), if_pos (by omega), ofNat_eq_byte a (by omega), ofNat_eq_byte b (by omega)]

/-- The ranges of the second byte keep out the numbers of two bytes and the surrogates. -/
theorem encodes_three {a b c : UInt8} (ha : 0xE0 ≤ a.toNat ∧ a.toNat < 0xF0)
    (hb : (if a.toNat = 0xE0 then 0xA0 else 0x80) ≤ b.toNat ∧
      b.toNat ≤ if a.toNat = 0xED then 0x9F else 0xBF)
    (hc : 0x80 ≤ c.toNat ∧ c.toNat ≤ 0xBF) :
    Encodes (((a.toNat - 0xE0) * 64 + (b.toNat - 0x80)) * 64 + (c.toNat - 0x80)) [a, b, c] := by
  have hrange : 0x80 ≤ b.toNat ∧ b.toNat ≤ 0xBF ∧ (a.toNat = 0xE0 → 0xA0 ≤ b.toNat) ∧
      (a.toNat = 0xED → b.toNat ≤ 0x9F) := by
    split at hb <;> split at hb <;> omega
  have hlt : ((a.toNat - 0xE0) * 64 + (b.toNat - 0x80)) * 64 + (c.toNat - 0x80) < 0x110000 := by
    omega
  refine ⟨hlt, by omega, ?_⟩
  simp only [encode, CodePoint.val_ofNat hlt]
  rw [if_neg (by omega), if_neg (by omega), if_pos (by omega), ofNat_eq_byte a (by omega),
    ofNat_eq_byte b (by omega), ofNat_eq_byte c (by omega)]

theorem encodes_four {a b c d : UInt8} (ha : 0xF0 ≤ a.toNat ∧ a.toNat < 0xF5)
    (hb : (if a.toNat = 0xF0 then 0x90 else 0x80) ≤ b.toNat ∧
      b.toNat ≤ if a.toNat = 0xF4 then 0x8F else 0xBF)
    (hc : 0x80 ≤ c.toNat ∧ c.toNat ≤ 0xBF) (hd : 0x80 ≤ d.toNat ∧ d.toNat ≤ 0xBF) :
    Encodes ((((a.toNat - 0xF0) * 64 + (b.toNat - 0x80)) * 64 + (c.toNat - 0x80)) * 64 +
      (d.toNat - 0x80)) [a, b, c, d] := by
  have hrange : 0x80 ≤ b.toNat ∧ b.toNat ≤ 0xBF ∧ (a.toNat = 0xF0 → 0x90 ≤ b.toNat) ∧
      (a.toNat = 0xF4 → b.toNat ≤ 0x8F) := by
    split at hb <;> split at hb <;> omega
  have hlt : (((a.toNat - 0xF0) * 64 + (b.toNat - 0x80)) * 64 + (c.toNat - 0x80)) * 64 +
      (d.toNat - 0x80) < 0x110000 := by
    omega
  refine ⟨hlt, by omega, ?_⟩
  simp only [encode, CodePoint.val_ofNat hlt]
  rw [if_neg (by omega), if_neg (by omega), if_neg (by omega), ofNat_eq_byte a (by omega),
    ofNat_eq_byte b (by omega), ofNat_eq_byte c (by omega), ofNat_eq_byte d (by omega)]

/-! ### The invariant of the machine -/

def Piece.Sound : Piece → Prop
  | .char c => c.isSurrogate = false
  | .malformed _ bytes => ∀ b ∈ bytes, 0x80 ≤ b.toNat

def Completes : (further : Nat) → (taken : Bytes) → (number low high : Nat) → Prop
  | 0, taken, number, low, high => ∀ b : UInt8, low ≤ b.toNat ∧ b.toNat ≤ high →
    Encodes (number * 64 + (b.toNat - 0x80)) (taken ++ [b])
  | further + 1, taken, number, low, high => ∀ b : UInt8, low ≤ b.toNat ∧ b.toNat ≤ high →
    Completes further (taken ++ [b]) (number * 64 + (b.toNat - 0x80)) 0x80 0xBF

structure Pending.Sound (p : Pending) : Prop where
  taken : ∀ b ∈ p.taken, 0x80 ≤ b.toNat
  low : 0x80 ≤ p.low
  completes : Completes p.further p.taken p.number p.low p.high

def heldBytes (held : Option Pending) : Bytes := held.elim [] Pending.taken

/-- What a step leaves, pieces and an open character, is sound and consists of the bytes `seen`. -/
structure Cut (seen : Bytes) (next : List Piece × Option Pending) : Prop where
  pieces : ∀ p ∈ next.1, p.Sound
  held : ∀ p ∈ next.2, p.Sound
  bytes : next.1.flatMap Piece.bytes ++ heldBytes next.2 = seen

theorem sound_of_mem_none : ∀ p ∈ (none : Option Pending), p.Sound := by
  intro p hp
  cases hp

theorem Encodes.cut {n : Nat} {bytes : Bytes} (h : Encodes n bytes) :
    Cut bytes ([.char (.ofNat n)], none) where
  pieces p hp := by
    rw [List.mem_singleton.mp hp]
    have hnot : ¬(CodePoint.ofNat n).isSurrogate = true := by
      rw [CodePoint.isSurrogate_eq_true_iff, CodePoint.val_ofNat h.lt]
      exact h.not_surrogate
    exact Bool.eq_false_iff.mpr hnot
  held := sound_of_mem_none
  bytes := by simpa [Piece.bytes, heldBytes] using h.encode_eq

theorem cut_malformed (reason : Reason) {b : UInt8} (hb : 0x80 ≤ b.toNat) :
    Cut [b] ([.malformed reason [b]], none) where
  pieces p hp := by
    rw [List.mem_singleton.mp hp]
    intro x hx
    rw [List.mem_singleton.mp hx]
    exact hb
  held := sound_of_mem_none
  bytes := rfl

theorem Pending.Sound.cut {p : Pending} (h : p.Sound) : Cut p.taken ([], some p) where
  pieces q hq := by cases hq
  held q hq := by
    cases hq
    exact h
  bytes := rfl

theorem cut_startWith (b : UInt8) : Cut [b] (startWith b) := by
  have hheld : ∀ {number low high further : Nat}, 0x80 ≤ b.toNat → 0x80 ≤ low →
      Completes further [b] number low high →
        Cut [b] ([], some ⟨[b], number, low, high, further⟩) := by
    intro number low high further hb hlow hcompletes
    have hsound : Pending.Sound ⟨[b], number, low, high, further⟩ := by
      refine ⟨?_, hlow, hcompletes⟩
      intro x hx
      rw [List.mem_singleton.mp hx]
      exact hb
    exact hsound.cut
  simp only [startWith]
  by_cases hascii : b.toNat < 0x80
  · rw [if_pos hascii]
    exact (encodes_one hascii).cut
  rw [if_neg hascii]
  have hb : 0x80 ≤ b.toNat := Nat.le_of_not_lt hascii
  by_cases hstart : b.toNat < 0xC2
  · rw [if_pos hstart]
    exact cut_malformed .startByte hb
  rw [if_neg hstart]
  by_cases htwo : b.toNat < 0xE0
  · rw [if_pos htwo]
    exact hheld hb (Nat.le_refl _) fun c hc => encodes_two ⟨by omega, htwo⟩ hc
  rw [if_neg htwo]
  by_cases hthree : b.toNat < 0xF0
  · rw [if_pos hthree]
    refine hheld hb (by split <;> omega) fun c hc d hd => ?_
    exact encodes_three ⟨by omega, hthree⟩ hc hd
  rw [if_neg hthree]
  by_cases hfour : b.toNat < 0xF5
  · rw [if_pos hfour]
    refine hheld hb (by split <;> omega) fun c hc d hd e he => ?_
    exact encodes_four ⟨by omega, hfour⟩ hc hd he
  rw [if_neg hfour]
  exact cut_malformed .startByte hb

theorem cut_extend {p : Pending} (h : p.Sound) {b : UInt8}
    (hb : p.low ≤ b.toNat ∧ b.toNat ≤ p.high) : Cut (p.taken ++ [b]) (p.extend b) := by
  obtain ⟨taken, number, low, high, further⟩ := p
  obtain ⟨htaken, hlow, hcompletes⟩ := h
  cases further with
  | zero => exact (hcompletes b hb).cut
  | succ further =>
    have hsound : Pending.Sound
        ⟨taken ++ [b], number * 64 + (b.toNat - 0x80), 0x80, 0xBF, further⟩ := by
      refine ⟨?_, Nat.le_refl _, hcompletes b hb⟩
      intro x hx
      rcases List.mem_append.mp hx with hx | hx
      · exact htaken x hx
      · rw [List.mem_singleton.mp hx]
        exact Nat.le_trans hlow hb.1
    exact hsound.cut

theorem cut_advance {held : Option Pending} (h : ∀ p ∈ held, p.Sound) (b : UInt8) :
    Cut (heldBytes held ++ [b]) (advance held b) := by
  cases held with
  | none => exact cut_startWith b
  | some p =>
    have hp : p.Sound := h p rfl
    simp only [advance]
    by_cases hb : p.low ≤ b.toNat ∧ b.toNat ≤ p.high
    · rw [if_pos hb]
      exact cut_extend hp hb
    · rw [if_neg hb]
      have hnext := cut_startWith b
      refine ⟨?_, hnext.held, ?_⟩
      · intro q hq
        rcases List.mem_cons.mp hq with rfl | hq
        · exact hp.taken
        · exact hnext.pieces q hq
      · rw [List.flatMap_cons, List.append_assoc, hnext.bytes]
        rfl

theorem cut_piecesFrom (data : Bytes) {held : Option Pending} (h : ∀ p ∈ held, p.Sound) :
    Cut (heldBytes held ++ data) (piecesFrom held data, none) := by
  induction data generalizing held with
  | nil =>
    cases held with
    | none =>
      refine ⟨?_, sound_of_mem_none, rfl⟩
      intro q hq
      cases hq
    | some p =>
      refine ⟨?_, sound_of_mem_none, ?_⟩
      · intro q hq
        rw [List.mem_singleton.mp hq]
        exact (h p rfl).taken
      · simp [piecesFrom, heldBytes, Piece.bytes]
  | cons b rest ih =>
    have hstep := cut_advance h b
    have hrest := ih hstep.held
    have hpieces : piecesFrom held (b :: rest) =
        (advance held b).1 ++ piecesFrom (advance held b).2 rest := by
      cases held <;> rfl
    rw [hpieces]
    refine ⟨?_, sound_of_mem_none, ?_⟩
    · intro p hp
      rcases List.mem_append.mp hp with hp | hp
      · exact hstep.pieces p hp
      · exact hrest.pieces p hp
    · calc
        ((advance held b).1 ++ piecesFrom (advance held b).2 rest).flatMap Piece.bytes ++ []
        _ = (advance held b).1.flatMap Piece.bytes ++
            ((piecesFrom (advance held b).2 rest).flatMap Piece.bytes ++ []) := by
          rw [List.flatMap_append, List.append_assoc]
        _ = (advance held b).1.flatMap Piece.bytes ++ (heldBytes (advance held b).2 ++ rest) :=
          congrArg _ hrest.bytes
        _ = heldBytes held ++ b :: rest := by
          rw [← List.append_assoc, hstep.bytes, List.append_assoc]
          rfl

theorem sound_of_mem_pieces {data : Bytes} {p : Piece} (hp : p ∈ pieces data) : p.Sound :=
  (cut_piecesFrom data sound_of_mem_none).pieces p hp

/-- The pieces are the bytes, one piece after another. -/
theorem flatMap_bytes_pieces (data : Bytes) : (pieces data).flatMap Piece.bytes = data := by
  have hcut := (cut_piecesFrom data sound_of_mem_none).bytes
  simpa [heldBytes, pieces] using hcut

end Utf8

/-! ### Texts that keep every byte -/

theorem Policy.val_escapedByte (b : UInt8) : (escapedByte b).val = 0xDC00 + b.toNat := by
  have hlt := b.toNat_lt
  exact CodePoint.val_ofNat (by omega)

theorem Policy.isEscapedByte_escapedByte {b : UInt8} (hb : 0x80 ≤ b.toNat) :
    (escapedByte b).isEscapedByte = true := by
  have hlt := b.toNat_lt
  simp only [CodePoint.isEscapedByte, val_escapedByte, Bool.and_eq_true, decide_eq_true_eq]
  omega

theorem Policy.restore?_escapedByte {b : UInt8} (hb : 0x80 ≤ b.toNat) :
    (Policy.escapedByte b).restore? = some [b] := by
  unfold CodePoint.restore?
  rw [if_pos (isEscapedByte_escapedByte hb), val_escapedByte, Nat.add_sub_cancel_left,
    UInt8.ofNat_toNat]

theorem CodePoint.isEscapedByte_of_not_surrogate {c : CodePoint} (hc : c.isSurrogate = false) :
    c.isEscapedByte = false := by
  rw [Bool.eq_false_iff]
  intro h
  simp only [isEscapedByte, Bool.and_eq_true, decide_eq_true_eq] at h
  have hsurrogate := (isSurrogate_eq_true_iff c).mpr ⟨by omega, by omega⟩
  rw [hc] at hsurrogate
  cases hsurrogate

theorem CodePoint.restore?_of_not_surrogate {c : CodePoint} (hc : c.isSurrogate = false) :
    c.restore? = some (Utf8.encode c) := by
  unfold restore?
  rw [isEscapedByte_of_not_surrogate hc, hc]
  rfl

namespace Text

theorem restore?_append {s t : Text} {x y : Bytes} (hs : s.restore? = some x)
    (ht : t.restore? = some y) : (s ++ t).restore? = some (x ++ y) := by
  obtain ⟨xs, hxs, rfl⟩ := Option.map_eq_some_iff.mp hs
  obtain ⟨ys, hys, rfl⟩ := Option.map_eq_some_iff.mp ht
  have happend : (s ++ t).codes.mapM CodePoint.restore? = some (xs ++ ys) := by
    change (s.codes ++ t.codes).mapM CodePoint.restore? = _
    rw [List.mapM_append, hxs, hys]
    rfl
  unfold restore?
  rw [happend, Option.map_some, List.flatten_append]

theorem restore?_singleton {c : CodePoint} {x : Bytes} (h : c.restore? = some x) :
    (⟨[c]⟩ : Text).restore? = some x := by
  simp [restore?, h]

theorem restore?_escaped {p : Utf8.Piece} (hp : p.Sound) :
    (⟨p.escaped⟩ : Text).restore? = some p.bytes := by
  cases p with
  | char c => exact restore?_singleton (CodePoint.restore?_of_not_surrogate hp)
  | malformed reason bytes =>
    have hbytes : ∀ bytes : Bytes, (∀ b ∈ bytes, 0x80 ≤ b.toNat) →
        (⟨bytes.map Policy.escapedByte⟩ : Text).restore? = some bytes := by
      intro bytes hhigh
      induction bytes with
      | nil => rfl
      | cons b rest ih =>
        have hb := restore?_singleton (Policy.restore?_escapedByte (hhigh b List.mem_cons_self))
        have hrest := ih fun x hx => hhigh x (List.mem_cons_of_mem b hx)
        exact restore?_append hb hrest
    exact hbytes bytes hp

/-- Every byte string comes back from its text. -/
theorem restore?_ofBytes (data : Bytes) : (ofBytes data).restore? = some data := by
  have hpieces : ∀ ps : List Utf8.Piece, (∀ p ∈ ps, p.Sound) →
      (⟨ps.flatMap Utf8.Piece.escaped⟩ : Text).restore? = some (ps.flatMap Utf8.Piece.bytes) := by
    intro ps hsound
    induction ps with
    | nil => rfl
    | cons p rest ih =>
      have hp := restore?_escaped (hsound p List.mem_cons_self)
      have hrest := ih fun q hq => hsound q (List.mem_cons_of_mem p hq)
      exact restore?_append hp hrest
  have hdata := hpieces (Utf8.pieces data) fun p hp => Utf8.sound_of_mem_pieces hp
  rw [Utf8.flatMap_bytes_pieces] at hdata
  exact hdata

end Text

/-! ### Policies that write something for every malformed piece -/

namespace Utf8

/-- A character is kept, and for malformed bytes there stands what is written for them. -/
def Piece.written (write : Bytes → List CodePoint) : Piece → List CodePoint
  | .char c => [c]
  | .malformed _ bytes => write bytes

theorem textOfPieces_written {substitute : Bytes → Option (List CodePoint)}
    {write : Bytes → List CodePoint} (h : ∀ bytes, substitute bytes = some (write bytes))
    (start : Nat) (ps : List Piece) :
    textOfPieces substitute start ps = .ok (ps.flatMap (Piece.written write)) := by
  induction ps generalizing start with
  | nil => rfl
  | cons p rest ih =>
    cases p with
    | char c =>
      rw [textOfPieces, ih]
      rfl
    | malformed reason bytes =>
      rw [textOfPieces, h]
      simp only [ih]
      rfl

end Utf8

theorem Policy.read_surrogateEscape (payload : Bytes) :
    Policy.surrogateEscape.read payload = .ok (Text.ofBytes payload) := by
  have hwritten : ∀ p : Utf8.Piece, p.written (·.map escapedByte) = p.escaped := by
    intro p
    cases p with
    | char c => rfl
    | malformed reason bytes => rfl
  have hsubstitute : ∀ bytes,
      Policy.surrogateEscape.substitute bytes = some (bytes.map escapedByte) := fun _ => rfl
  have hprepare : Policy.surrogateEscape.prepare (Utf8.pieces payload) = Utf8.pieces payload := rfl
  rw [read, hprepare, Utf8.textOfPieces_written hsubstitute, funext hwritten]
  rfl

end LuaBytecode
